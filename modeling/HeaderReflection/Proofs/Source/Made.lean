import HeaderReflection.Proofs.Attribute.Validity
import HeaderReflection.Source.ClassDeclaration
import HeaderReflection.Source.EnumDeclaration
import HeaderReflection.Source.FieldDeclaration
import HeaderReflection.Source.MethodDeclaration

/-! # What declarations are made of

A declaration has the line and the path of its marker, which identify it (`Declaration.MadeAt`).  Its
attributes are merged from default bags, the attribute list of the marker and the native attributes in its
text, and they passed their check.

There is one statement for each kind of declaration: `Reader.classOf_makes`, `Reader.fieldOf_makes`,
`Reader.methodOf_makes`, `Reader.enumOf_makes` and `Reader.enumeratorOf_makes`.  They say everything that the
following modules use of how a declaration is made, so that nobody else opens the functions of the reader for
it.

Classes and enums have default bags for their own members, which are checked for reserved attributes when the
class or enum is made (`Reader.MakesClass`, `Reader.MakesEnum`).  A namespace is named by an attribute or by
the settings; that of an attribute is checked to be one, while the default namespace of the settings is not
(`IsNamespace`). -/

namespace HeaderReflection

open Checked

/-! ### What is made -/

/-- Empty, or identifiers with double colons between them. -/
def IsNamespace (s : String) : Prop :=
  s.isEmpty = true ∨ ∀ p ∈ Check.scopeParts s.toList, Text.isIdentifier p = true

/-- The declaration stands behind a marker, and its attributes passed their check. -/
structure Declaration.MadeAt (d : Declaration) (path : SourcePath) (n : Nat) (k : DeclarationKind)
    (bag : Bag) : Prop where
  attributes : d.attributes = bag
  valid : ValidBag k d.attributes
  line : d.line = n
  uid : d.uid = Uid.compute path n
  unmade : d.synthesized = []

namespace Reader

variable (r : Reader)

/-- A class as it is made of its head, without members. -/
structure MakesClass (site : MarkerSite) (head : ClassHead) (c : Class) : Prop where
  made : c.toDeclaration.MadeAt site.path site.line .classType
    ((r.settings.defaults.classes.merge site.attributes).merge head.native)
  path : c.path = site.path
  defaultFields : Catalog.standard.rejectUnsettable c.defaultFieldAttributes = .ok ()
  defaultMethods : Catalog.standard.rejectUnsettable c.defaultMethodAttributes = .ok ()
  fields : c.fields = []
  methods : c.methods = []
  properties : c.properties = []
  declaredFlags : c.declaredFlags = []

/-- An enum as it is made of its head, without enumerators. -/
structure MakesEnum (site : MarkerSite) (head : EnumHead) (e : Enumeration) : Prop where
  made : e.toDeclaration.MadeAt site.path site.line .enumType
    ((r.settings.defaults.enums.merge site.attributes).merge head.native)
  path : e.path = site.path
  name : e.name = head.name
  scope : IsNamespace r.settings.defaultNamespace → IsNamespace e.scope
  defaultEnumerators : Catalog.standard.rejectUnsettable e.defaultEnumeratorAttributes = .ok ()
  enumerators : e.enumerators = []

/-! ### Declarations by kind -/

variable {r : Reader} {site : MarkerSite}

/-- No bag gets past its check that is not valid. -/
theorem checkedBearer_yields (k : DeclarationKind) (bag : Bag) :
    Yields (r.checkedBearer site k bag) fun b => b.kind = k ∧ b.attributes = bag ∧ ValidBag k bag := by
  intro b h
  obtain ⟨_, hvalid, h⟩ := bind_eq_ok.mp h
  obtain rfl := pure_eq_ok.mp h
  exact ⟨rfl, rfl, Bearer.validBag_of_validate hvalid⟩

/-- A namespace that an attribute names is one. -/
theorem namespaceName_yields (b : Bearer) :
    Yields (b.string? .namespaceName) fun o => ∀ s, o = some s → IsNamespace s := by
  rintro o h s rfl
  unfold Bearer.string? Bearer.lookup? at h
  split at h
  · cases h
  · rename_i v _
    split at h
    · rename_i hnone
      have hv : v.string? = some s := Except.ok.inj h
      cases v with
      | str t =>
          obtain rfl : t = s := Option.some.inj hv
          unfold Attribute.fault? at hnone
          split at hnone
          · change Check.textFault? b.isEnum .namespaceName t = none at hnone
            unfold Check.textFault? at hnone
            split at hnone
            · cases hnone
            · right
              intro p hp
              have hfind := List.find?_eq_none.mp (Option.map_eq_none_iff.mp hnone) p hp
              simpa using hfind
          · cases hnone
      | _ => cases hv
    · cases h

theorem classOf_makes (site : MarkerSite) (text : List Char) :
    Yields (r.classOf site text) fun c =>
      ∃ head, ClassHead.read.eval text = .ok head ∧ r.MakesClass site head c := by
  refine .bind (.lift fun head hhead => hhead) fun head hhead => ?_
  refine .bind (checkedBearer_yields _ _) fun b hb => .bind (.any _) fun flags _ => ?_
  refine .ite (fun _ => .throw_bind _) fun _ => ?_
  refine .bind (.any _) fun _ _ => .bind (.any _) fun _ _ => .bind (.any _) fun _ _ => ?_
  refine .bind (.any _) fun ofFields _ => .bind (.any _) fun ofMethods _ => ?_
  refine .bind (P := fun _ => Catalog.standard.rejectUnsettable ofFields = .ok ()) (.lift fun _ h => h)
    fun _ hfields => ?_
  refine .bind (P := fun _ => Catalog.standard.rejectUnsettable ofMethods = .ok ()) (.lift fun _ h => h)
    fun _ hmethods => .pure ?_
  exact ⟨head, hhead, ⟨rfl, hb.2.2, rfl, rfl, rfl⟩, rfl, hfields, hmethods, rfl, rfl, rfl, rfl⟩

theorem fieldOf_makes (site : MarkerSite) (owner : Class) (access : Access) (text : List Char) :
    Yields (r.fieldOf site owner access text) fun f =>
      ∃ t, FieldText.read.eval text = .ok t ∧ f.toDeclaration.MadeAt site.path site.line .field
        (((r.settings.defaults.fields.merge owner.defaultFieldAttributes).merge site.attributes).merge
          t.native) := by
  refine .bind (.lift fun t ht => ht) fun t ht => ?_
  refine .bind (checkedBearer_yields _ _) fun b hb => ?_
  refine .bind (.any _) fun _ _ => .bind (.any _) fun _ _ => .bind (.any _) fun _ _ => ?_
  refine .bind (.any _) fun _ _ => .bind (.any _) fun _ _ => .bind (.any _) fun _ _ => .pure ?_
  exact ⟨t, ht, rfl, hb.2.2, rfl, rfl, rfl⟩

theorem methodOf_makes (site : MarkerSite) (owner : Class) (access : Access) (text : List Char) :
    Yields (r.methodOf site owner access text) fun m =>
      ∃ t, MethodText.read.eval text = .ok t ∧ m.toDeclaration.MadeAt site.path site.line .method
        (((r.settings.defaults.methods.merge owner.defaultMethodAttributes).merge site.attributes).merge
          t.native) := by
  refine .bind (.lift fun t ht => ht) fun t ht => ?_
  refine .bind (checkedBearer_yields _ _) fun b hb => ?_
  refine .bind (.any _) fun _ _ => .bind (.any _) fun _ _ => .bind (.any _) fun _ _ => ?_
  refine .bind (.any _) fun _ _ => .bind (.any _) fun _ _ => .pure ?_
  exact ⟨t, ht, rfl, hb.2.2, rfl, rfl, rfl⟩

theorem enumOf_makes (site : MarkerSite) (head : EnumHead) :
    Yields (r.enumOf site head) (r.MakesEnum site head) := by
  refine .bind (checkedBearer_yields _ _) fun b hb => ?_
  refine .bind (.any _) fun _ _ => .bind (namespaceName_yields b) fun scope hscope => ?_
  refine .bind (.any _) fun _ _ => .bind (.any _) fun ofEnumerators _ => ?_
  refine .bind (P := fun _ => Catalog.standard.rejectUnsettable ofEnumerators = .ok ())
    (.lift fun _ h => h) fun _ henumerators => ?_
  refine .bind (.any _) fun _ _ => .bind (.any _) fun _ _ => .pure ?_
  refine ⟨⟨rfl, hb.2.2, rfl, rfl, rfl⟩, rfl, rfl, fun hdefault => ?_, henumerators, rfl⟩
  cases scope with
  | none => exact hdefault
  | some s => exact hscope s rfl

theorem enumeratorOf_makes (body : EnumBody) (line : Nat) (text : List Char) :
    Yields (r.enumeratorOf body line text) fun x =>
      ∃ t, EnumeratorText.read.eval text = .ok t ∧ x.name = t.name ∧
        x.toDeclaration.MadeAt body.declared.path line .enumerator
          (((r.settings.defaults.enumerators.merge body.declared.defaultEnumeratorAttributes).merge
            body.pending).merge t.native) := by
  refine .bind (.lift fun t ht => ht) fun t ht => ?_
  refine .bind (checkedBearer_yields _ _) fun b hb => ?_
  refine .bind (.any _) fun _ _ => .bind (.any _) fun _ _ => .pure ?_
  exact ⟨t, ht, rfl, rfl, hb.2.2, rfl, rfl, rfl⟩

end Reader

end HeaderReflection
