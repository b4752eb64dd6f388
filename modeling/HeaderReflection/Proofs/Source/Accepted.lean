import HeaderReflection.Program.Basic
import HeaderReflection.Proofs.Declaration.Properties
import HeaderReflection.Proofs.Source.Declared
import HeaderReflection.Proofs.Source.Made

/-! # What an accepted header holds

A header that was read holds its classes and enums as they were read from its lines, before anything is
derived.

* Every declaration has attributes that passed the check for its kind, is identified by its line alone, and
  nothing is made from it yet (`Declaration.ReadFrom`).
* The properties of a class have declared methods of the class as accessors, since only markers on methods
  claim properties while a header is read (`Class.ReadFrom`).
* The names of enums and of enumerators are words (`Enumeration.ReadFrom`), and namespaces are dotted words if
  the default one is.

These are invariants of reading a class and an enum (`Reader.readFrom_classInvariant`,
`Reader.readFrom_enumInvariant`), so they hold of all classes and enums of an accepted header
(`Reader.readFrom_of_mem_classes`, `Reader.readFrom_of_mem_enums`).  At the end they are said of programs,
which consist of headers that some reader has accepted. -/

namespace HeaderReflection

open Checked

/-! ### Declarations as they are read -/

/-- The declaration stands in a header with the given path. -/
structure Declaration.ReadFrom (d : Declaration) (path : SourcePath) (k : DeclarationKind) : Prop where
  valid : ValidBag k d.attributes
  uid : d.uid = Uid.compute path d.line
  unmade : d.synthesized = []

theorem Declaration.MadeAt.readFrom {d : Declaration} {path : SourcePath} {n : Nat} {k : DeclarationKind}
    {bag : Bag} (h : d.MadeAt path n k bag) : d.ReadFrom path k :=
  ⟨h.valid, h.line ▸ h.uid, h.unmade⟩

/-- The class stands in a header with the given path, as it was read. -/
structure Class.ReadFrom (c : Class) (header : SourcePath) : Prop where
  path : c.path = header
  own : c.toDeclaration.ReadFrom header .classType
  fields : ∀ f ∈ c.fields, f.toDeclaration.ReadFrom header .field
  methods : ∀ m ∈ c.methods, m.toDeclaration.ReadFrom header .method
  properties : c.OwnsProperties c.methods
  declaredFlags : c.declaredFlags = []

/-- The enum stands in a header with the given path, as it was read. -/
structure Enumeration.ReadFrom (e : Enumeration) (header : SourcePath) : Prop where
  path : e.path = header
  own : e.toDeclaration.ReadFrom header .enumType
  enumerators : ∀ x ∈ e.enumerators, x.toDeclaration.ReadFrom header .enumerator
  name : Lexer.IsWord e.name.toList
  names : ∀ x ∈ e.enumerators, Lexer.IsWord x.name.toList

theorem EnumHead.read_yields : EnumHead.read.Yields fun head => Lexer.IsWord head.name.toList := by
  refine .bind (.any _) fun _ _ => .bind (.any _) fun _ _ => ?_
  refine .ite (fun _ => ?_) fun _ => .bind (.any _) fun _ _ => ?_
  all_goals
    refine .bind (.any _) fun native _ => ?_
    refine .bind (Lexer.takes_identifier.yields fun _ _ h => h.1) fun name hname => ?_
    have hname : Lexer.IsWord (String.ofList name).toList := by rwa [String.toList_ofList]
    refine .bind (.any _) fun _ _ => .ite (fun _ => ?_) fun _ => ?_
    · exact .bind (.any _) fun _ _ => .bind (.any _) fun _ _ => .bind (.any _) fun _ _ => .pure hname
    · exact .bind (.any _) fun _ _ => .bind (.any _) fun _ _ => .pure hname

theorem EnumeratorText.read_yields : EnumeratorText.read.Yields fun t => Lexer.IsWord t.name.toList := by
  refine .bind (Lexer.takes_identifier.yields fun _ _ h => h.1) fun name hname => ?_
  have hname : Lexer.IsWord (String.ofList name).toList := by rwa [String.toList_ofList]
  refine .bind (.any _) fun native _ => .bind (.any _) fun value _ => ?_
  refine .bind (.any _) fun _ _ => .bind (.any _) fun rest _ => ?_
  dsimp only
  split
  · exact .pure hname
  · exact .pure hname
  · exact .pure hname
  · exact .throw_bind _

/-! ### Invariants of reading -/

namespace Reader

variable {r : Reader} {path : SourcePath} {lines : List String}

theorem claimGetter_owns {b : Bearer} {c d : Class} {m : Method} {ms : List Method}
    (hc : c.OwnsProperties ms) (hm : m ∈ ms) (h : claimGetter b c m = .ok d) : d.OwnsProperties ms := by
  obtain ⟨getter, _, h⟩ := bind_eq_ok.mp h
  cases getter with
  | none => exact pure_eq_ok.mp h ▸ hc
  | some p => exact hc.bindAccessor hm (lift_eq_ok.mp h)

theorem claimSetter_owns {b : Bearer} {c d : Class} {m : Method} {ms : List Method}
    (hc : c.OwnsProperties ms) (hm : m ∈ ms) (h : claimSetter b c m = .ok d) : d.OwnsProperties ms := by
  obtain ⟨setter, _, h⟩ := bind_eq_ok.mp h
  cases setter with
  | none => exact pure_eq_ok.mp h ▸ hc
  | some p =>
      dsimp only at h
      split at h
      · cases h
      · exact hc.bindAccessor hm (lift_eq_ok.mp h)

/-- The methods that a class binds to its properties are its own and the one that claims them. -/
theorem claimProperties_owns {c d : Class} {m : Method} {ms : List Method} (hc : c.OwnsProperties ms)
    (hm : m ∈ ms) (h : r.claimProperties c m = .ok d) : d.OwnsProperties ms := by
  obtain ⟨k, hk, h⟩ := bind_eq_ok.mp h
  exact claimSetter_owns (claimGetter_owns hc hm hk) hm h

theorem readFrom_classInvariant : r.ClassInvariant path lines (·.ReadFrom path) where
  declare := by
    intro site text c hsite hc
    obtain ⟨head, -, hc⟩ := classOf_makes site text c hc
    refine ⟨hc.path.trans hsite.path, hsite.path ▸ hc.made.readFrom, ?_, ?_, .nil hc.properties,
      hc.declaredFlags⟩
    · rw [hc.fields]
      exact fun f hf => absurd hf List.not_mem_nil
    · rw [hc.methods]
      exact fun m hm => absurd hm List.not_mem_nil
  body := fun _ hc =>
    ⟨hc.path, hc.own, hc.fields, hc.methods, hc.properties.congr rfl rfl rfl, hc.declaredFlags⟩
  field := by
    intro site access text c f hsite hc hf
    obtain ⟨t, -, hf⟩ := fieldOf_makes site c access text f hf
    refine ⟨hc.path, hc.own, fun g hg => ?_, hc.methods, hc.properties.congr rfl rfl rfl, hc.declaredFlags⟩
    rcases List.mem_append.mp hg with hg | hg
    · exact hc.fields g hg
    · obtain rfl := List.mem_singleton.mp hg
      exact hsite.path ▸ hf.readFrom
  method := by
    intro site access text c d m hsite hc hm hd
    obtain ⟨t, -, hm⟩ := methodOf_makes site c access text m hm
    have hkept : c.OwnsProperties (c.methods ++ [m]) := hc.properties.mono (List.subset_append_left _ _)
    have howns := claimProperties_owns hkept (List.mem_append_right _ List.mem_cons_self) hd
    obtain ⟨ps, rfl⟩ := claimProperties_yields c m d hd
    refine ⟨hc.path, hc.own, hc.fields, fun k hk => ?_, howns.congr rfl rfl rfl, hc.declaredFlags⟩
    rcases List.mem_append.mp hk with hk | hk
    · exact hc.methods k hk
    · obtain rfl := List.mem_singleton.mp hk
      exact hsite.path ▸ hm.readFrom

theorem readFrom_enumInvariant : r.EnumInvariant path lines (·.ReadFrom path) where
  declare := by
    intro site text rest head e hsite hhead he
    have he := enumOf_makes site head e he
    refine ⟨he.path.trans hsite.path, hsite.path ▸ he.made.readFrom, ?_, ?_, ?_⟩
    · rw [he.enumerators]
      exact fun x hx => absurd hx List.not_mem_nil
    · rw [he.name]
      exact EnumHead.read_yields.of_eval (Lexer.eval_eq_ok_of_split hhead)
    · rw [he.enumerators]
      exact fun x hx => absurd hx List.not_mem_nil
  enumerator := by
    intro body line text x _ _ he hx
    obtain ⟨t, ht, hname, hx⟩ := enumeratorOf_makes body line text x hx
    refine ⟨he.path, he.own, fun y hy => ?_, he.name, fun y hy => ?_⟩
    · rcases List.mem_append.mp hy with hy | hy
      · exact he.enumerators y hy
      · obtain rfl := List.mem_singleton.mp hy
        exact he.path ▸ hx.readFrom
    · rcases List.mem_append.mp hy with hy | hy
      · exact he.names y hy
      · obtain rfl := List.mem_singleton.mp hy
        exact hname ▸ EnumeratorText.read_yields.of_eval ht

variable {text : String} {h : Header}

/-- Every class of a header that was read stands in it as it was read. -/
theorem readFrom_of_mem_classes (hr : r.read path text = .ok h) {c : Class} (hc : c ∈ h.classes) :
    c.ReadFrom path :=
  read_classes readFrom_classInvariant hr c hc

theorem readFrom_of_mem_enums (hr : r.read path text = .ok h) {e : Enumeration} (he : e ∈ h.enums) :
    e.ReadFrom path :=
  read_enums readFrom_enumInvariant hr e he

theorem isNamespace_of_mem_enums (hr : r.read path text = .ok h)
    (hdefault : IsNamespace r.settings.defaultNamespace) {e : Enumeration} (he : e ∈ h.enums) :
    IsNamespace e.scope := by
  refine read_enums (P := fun e => IsNamespace e.scope) ⟨?_, ?_⟩ hr e he
  · intro site text rest head e _ _ he
    exact (enumOf_makes site head e he).scope hdefault
  · intro body line text x _ _ he _
    exact he

end Reader

/-! ### Programs of accepted headers -/

/-- Some reader accepted the header. -/
def Header.IsAccepted (h : Header) : Prop := ∃ (r : Reader) (text : String), r.read h.path text = .ok h

/-- Every header of the program was accepted. -/
def Program.IsAccepted (p : Program) : Prop := ∀ h ∈ p.headers, h.IsAccepted

theorem Program.IsAccepted.singleton {r : Reader} {path : SourcePath} {text : String} {h : Header}
    (hr : r.read path text = .ok h) : (⟨[h]⟩ : Program).IsAccepted := by
  intro g hg
  obtain rfl := List.mem_singleton.mp hg
  exact ⟨r, text, Reader.read_path hr ▸ hr⟩

end HeaderReflection
