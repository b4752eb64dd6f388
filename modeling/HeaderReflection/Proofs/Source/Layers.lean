import HeaderReflection.Program.Entity
import HeaderReflection.Proofs.Attribute.Layers
import HeaderReflection.Proofs.Source.Accepted
import HeaderReflection.Proofs.Source.Characters

/-! # Layers of attributes in a header

The attributes of a field, method or enumerator are merged from default bags, its own list and native
attributes (`Reader.layers?`).

* The layers of a member are told by the text: its list stands behind its marker, native attributes stand in
  its declaration, and the defaults are those of the settings and of its class or enum.
* That the attributes of every member are merged from its layers is an invariant of reading a class and an
  enum (`Reader.layersMembers_invariant`, `Reader.layersEnumerators_invariant`).
* Bags are merged by key, while an attribute is looked up under each of its names in turn.  So a value in the
  member's own list wins over a default under the same name, and it is overruled by a default under a name
  that comes before it (`Reader.lookup_of_own_list`).

The last point means that what stands nearest to the declaration need not win, if an attribute has several
names (`Reader.own_list_overruled`). -/

namespace HeaderReflection

open Checked

/-! ### Layers -/

namespace Attribute

/-- The value in a bag under a name, unless it is null. -/
def valueIn? (bag : Bag) (name : String) : Option Value :=
  match bag.get? name with
  | none | some .null => none
  | some v => some v

theorem valueIn?_congr {bag other : Bag} {name : String} (h : bag.get? name = other.get? name) :
    valueIn? bag name = valueIn? other name := by
  unfold valueIn?
  rw [h]

theorem valueIn?_of_get? {bag : Bag} {name : String} {v : Value} (h : bag.get? name = some v) (hv : v ≠ .null) :
    valueIn? bag name = some v := by
  unfold valueIn?
  rw [h]
  cases v with
  | null => exact absurd rfl hv
  | _ => rfl

/-- The bags that the attributes of a member are merged from. -/
structure Layers where
  /-- The default bags of the settings and of the owner, which wins. -/
  defaults : Bag
  /-- The attribute list of the member's marker. -/
  own : Bag
  /-- The native attributes of the member. -/
  native : Bag

namespace Layers

/-- The attributes of the member. -/
def merged (l : Layers) : Bag := (l.defaults.merge l.own).merge l.native

/-- The member's own list sets one of the names to a value and no other name, and no native attribute has any. -/
structure Sets (l : Layers) (names : List String) (name : String) (v : Value) : Prop where
  mem : name ∈ names
  value : l.own.get? name = some v
  not_null : v ≠ .null
  only : ∀ other ∈ names, other ≠ name → other ∉ l.own.keys
  not_native : ∀ other ∈ names, other ∉ l.native.keys

instance (l : Layers) (names : List String) (name : String) (v : Value) : Decidable (l.Sets names name v) :=
  decidable_of_iff (name ∈ names ∧ l.own.get? name = some v ∧ v ≠ .null ∧
      (∀ other ∈ names, other ≠ name → other ∉ l.own.keys) ∧ ∀ other ∈ names, other ∉ l.native.keys)
    ⟨fun ⟨hmem, hvalue, hnull, honly, hnative⟩ => ⟨hmem, hvalue, hnull, honly, hnative⟩,
      fun ⟨hmem, hvalue, hnull, honly, hnative⟩ => ⟨hmem, hvalue, hnull, honly, hnative⟩⟩

/-- The first value in the default bags under a name that comes before the given one. -/
def earlier? (l : Layers) (names : List String) (name : String) : Option Value :=
  (names.takeWhile (· ≠ name)).findSome? (valueIn? l.defaults)

variable {l : Layers} {names : List String} {name : String} {v : Value}

theorem earlier?_cons {other : String} (h : other ≠ name) (rest : List String) :
    l.earlier? (other :: rest) name = (valueIn? l.defaults other).or (l.earlier? rest name) := by
  unfold earlier?
  rw [List.takeWhile_cons_of_pos (by simpa using h), List.findSome?_cons]
  cases valueIn? l.defaults other with
  | some w => rfl
  | none => rfl

/-- Where names are looked up in turn, the member's own value is found unless a default comes first. -/
theorem findSome?_merged (hown : l.own.keys.Nodup) (h : l.Sets names name v) :
    names.findSome? (valueIn? l.merged) = some ((l.earlier? names name).getD v) := by
  have hpresent : l.merged.get? name = some v := by
    rw [merged, Keyed.get?_merge_of_not_mem_keys _ (h.not_native name h.mem), Keyed.get?_merge _ hown, h.value]
    rfl
  have habsent : ∀ other ∈ names, other ≠ name → l.merged.get? other = l.defaults.get? other := by
    intro other hmem hne
    rw [merged, Keyed.get?_merge_of_not_mem_keys _ (h.not_native other hmem),
      Keyed.get?_merge_of_not_mem_keys _ (h.only other hmem hne)]
  have hfind : ∀ rest : List String, name ∈ rest → rest ⊆ names →
      rest.findSome? (valueIn? l.merged) = some ((l.earlier? rest name).getD v) := by
    intro rest hmem hsub
    induction rest with
    | nil => exact absurd hmem List.not_mem_nil
    | cons other rest ih =>
        obtain ⟨hother, hrest⟩ := List.cons_subset.mp hsub
        by_cases hname : other = name
        · subst hname
          simp [earlier?, valueIn?_of_get? hpresent h.not_null]
        · have hmem : name ∈ rest := (List.mem_cons.mp hmem).resolve_left fun e => hname e.symm
          have hvalue := valueIn?_congr (habsent other hother hname)
          rw [List.findSome?_cons, hvalue, earlier?_cons hname]
          cases valueIn? l.defaults other with
          | some w => rfl
          | none => exact ih hmem hrest
  exact hfind names h.mem (List.Subset.refl names)

end Layers

end Attribute

open Attribute

/-- The attributes of a declaration are merged from layers, and they passed their check. -/
structure Declaration.MergedFrom (d : Declaration) (k : DeclarationKind) (l : Layers) : Prop where
  attributes : d.attributes = l.merged
  valid : ValidBag k d.attributes
  own : l.own.keys.Nodup

/-- Looking an attribute up gives the value that the member's own list sets, unless a default comes first. -/
theorem Declaration.MergedFrom.lookup {d : Declaration} {k : DeclarationKind} {l : Layers} (h : d.MergedFrom k l)
    {a : Attribute} (ha : a ∈ Attribute.known) (hflags : a ≠ .flags) (hgetters : a ≠ .flagGetters) {name : String}
    {v : Value} (hset : l.Sets a.names name v) (path : SourcePath) (isEnum : String → Bool) :
    (d.bearer k path isEnum).lookup isEnum a = .ok ((l.earlier? a.names name).getD v) := by
  have hcheck : a.check ≠ .reflectedEnum := by
    intro hcheck
    have hmem := Attribute.mem_deferred_of_check ha hcheck
    simp only [Bearer.deferred, List.mem_cons, List.not_mem_nil, or_false] at hmem
    exact hmem.elim hflags hgetters
  have hfind : (d.bearer k path isEnum).find? a = some ((l.earlier? a.names name).getD v) := by
    show a.names.findSome? (valueIn? d.attributes) = _
    rw [h.attributes]
    exact Layers.findSome?_merged h.own hset
  rw [Bearer.lookup_of_validBag h.valid ha hcheck, hfind]
  rfl

/-! ### Layers of members -/

namespace Reader

variable {r : Reader} {path : SourcePath} {lines : List String}

/-- The layers of a member of a header with the given lines. -/
def layers? (r : Reader) (lines : List String) : Entity → Option Layers
  | .field c f => do
    let text ← r.declarationAt? lines f.line
    let own ← r.listAt? lines f.line
    let t ← (FieldText.read.eval text).toOption
    return ⟨r.settings.defaults.fields.merge c.defaultFieldAttributes, own, t.native⟩
  | .method c m => do
    let text ← r.declarationAt? lines m.line
    let own ← r.listAt? lines m.line
    let t ← (MethodText.read.eval text).toOption
    return ⟨r.settings.defaults.methods.merge c.defaultMethodAttributes, own, t.native⟩
  | .enumerator e x => do
    let text ← r.enumeratorAt? lines x.line
    let t ← (EnumeratorText.read.eval text).toOption
    return ⟨r.settings.defaults.enumerators.merge e.defaultEnumeratorAttributes,
      r.enumeratorList lines (r.braceLine lines e.line) x.line, t.native⟩
  | .classType _ | .property _ _ | .enumType _ => none

/-- The attributes of an entity are merged from its layers. -/
def IsLayered (r : Reader) (lines : List String) (d : Entity) : Prop :=
  ∃ l, r.layers? lines d = some l ∧ d.declaration.MergedFrom d.kind l

theorem nodup_of_isListBag {bag : Bag} (h : IsListBag bag) : bag.keys.Nodup := by
  obtain ⟨s, hs⟩ := h
  exact attributeList_nodup.of_eval hs

/-- The members of a class are merged from their layers. -/
structure LayersMembers (r : Reader) (lines : List String) (c : Class) : Prop where
  fields : ∀ f ∈ c.fields, r.IsLayered lines (.field c f)
  methods : ∀ m ∈ c.methods, r.IsLayered lines (.method c m)

theorem layersMembers_invariant : r.ClassInvariant path lines (r.LayersMembers lines) where
  declare := by
    intro site text c _ hc
    obtain ⟨_, -, hc⟩ := classOf_makes site text c hc
    constructor
    · rw [hc.fields]
      exact fun f hf => absurd hf List.not_mem_nil
    · rw [hc.methods]
      exact fun m hm => absurd hm List.not_mem_nil
  body := fun _ hc => ⟨hc.fields, hc.methods⟩
  field := by
    intro site access text c f hsite hc hf
    refine ⟨fun g hg => ?_, hc.methods⟩
    rcases List.mem_append.mp hg with hg | hg
    · exact hc.fields g hg
    · obtain rfl := List.mem_singleton.mp hg
      obtain ⟨t, ht, hmade⟩ := fieldOf_makes site c access text g hf
      refine ⟨⟨r.settings.defaults.fields.merge c.defaultFieldAttributes, site.attributes, t.native⟩, ?_,
        hmade.attributes, hmade.valid, nodup_of_isListBag hsite.attributes⟩
      simp only [layers?, hmade.line, hsite.text, hsite.list, Option.bind_eq_bind, Option.bind_some,
        toOption_eq_some.mpr ht]
      rfl
  method := by
    intro site access text c d m hsite hc hm hd
    obtain ⟨ps, rfl⟩ := claimProperties_yields c m d hd
    refine ⟨hc.fields, fun k hk => ?_⟩
    rcases List.mem_append.mp hk with hk | hk
    · exact hc.methods k hk
    · obtain rfl := List.mem_singleton.mp hk
      obtain ⟨t, ht, hmade⟩ := methodOf_makes site c access text k hm
      refine ⟨⟨r.settings.defaults.methods.merge c.defaultMethodAttributes, site.attributes, t.native⟩, ?_,
        hmade.attributes, hmade.valid, nodup_of_isListBag hsite.attributes⟩
      simp only [layers?, hmade.line, hsite.text, hsite.list, Option.bind_eq_bind, Option.bind_some,
        toOption_eq_some.mpr ht]
      rfl

/-- The enumerators of an enum are merged from their layers. -/
def LayersEnumerators (r : Reader) (lines : List String) (e : Enumeration) : Prop :=
  ∀ x ∈ e.enumerators, r.IsLayered lines (.enumerator e x)

theorem layersEnumerators_invariant : r.EnumInvariant path lines (r.LayersEnumerators lines) where
  declare := by
    intro site text rest head e _ _ he x hx
    rw [(enumOf_makes site head e he).enumerators] at hx
    exact absurd hx List.not_mem_nil
  enumerator := by
    intro body line text x hlist htext he hx y hy
    rcases List.mem_append.mp hy with hy | hy
    · exact he y hy
    · obtain rfl := List.mem_singleton.mp hy
      obtain ⟨t, ht, -, hmade⟩ := enumeratorOf_makes body line text y hx
      refine ⟨⟨r.settings.defaults.enumerators.merge body.declared.defaultEnumeratorAttributes, body.pending,
        t.native⟩, ?_, hmade.attributes, hmade.valid, nodup_of_isListBag hlist.isList⟩
      simp only [layers?, hmade.line, htext, ← hlist.list, Option.bind_eq_bind, Option.bind_some,
        toOption_eq_some.mpr ht]
      rfl

/-! ### Members of headers -/

/-- The attributes of every member of a header are merged from its layers. -/
theorem isLayered_of_mem {text : String} {h : Header} (hr : r.read path text = .ok h) :
    ∀ d ∈ h.entities, d.kind = .field ∨ d.kind = .method ∨ d.kind = .enumerator →
      r.IsLayered (Text.lines text) d := by
  refine Header.forall_mem_entities.mpr ⟨fun c hc => ?_, fun e he => ?_⟩
  · have hmembers := read_classes layersMembers_invariant hr c hc
    refine Entity.forall_mem_ofClass.mpr ⟨fun hkind => ?_, fun f hf _ => hmembers.fields f hf,
      fun m hm _ => hmembers.methods m hm, fun _ _ hkind => ?_⟩
    · simp [Entity.kind] at hkind
    · simp [Entity.kind] at hkind
  · have henumerators := read_enums layersEnumerators_invariant hr e he
    refine Entity.forall_mem_ofEnum.mpr ⟨fun hkind => ?_, fun x hx _ => henumerators x hx⟩
    simp [Entity.kind] at hkind

/-- What a member's own list sets under one name of an attribute, and no native attribute sets, is what looking the
attribute up gives, unless a default bag has a value under a name that comes before it. -/
theorem lookup_of_own_list {text : String} {h : Header} (hr : r.read path text = .ok h) {d : Entity}
    (hd : d ∈ h.entities) (hkind : d.kind = .field ∨ d.kind = .method ∨ d.kind = .enumerator) :
    ∃ l, r.layers? (Text.lines text) d = some l ∧
      ∀ a ∈ Attribute.known, a ≠ .flags → a ≠ .flagGetters → ∀ name v, l.Sets a.names name v → ∀ isEnum,
        (d.declaration.bearer d.kind path isEnum).lookup isEnum a = .ok ((l.earlier? a.names name).getD v) := by
  obtain ⟨l, hl, hmerged⟩ := isLayered_of_mem hr d hd hkind
  exact ⟨l, hl, fun a ha hflags hgetters name v hset isEnum => hmerged.lookup ha hflags hgetters hset path isEnum⟩

/-- A default under a later name of the attribute changes nothing. -/
theorem lookup_of_own_list_script :
    ∃ (h : Header) (d : Entity) (l : Layers),
      (Reader.ofSettings {}).read ⟨.relative, ["Unit.h"]⟩
          ("RClass(DefaultFieldAttributes = \x7b Scriptable = false \x7d)\n" ++
            "struct Unit \x7b\nRBody();\nRField(Script = true)\nint a;\n\x7d;") = .ok h ∧
        d ∈ h.entities ∧ d.kind = .field ∧ l.defaults.get? "Scriptable" = some (.bool false) ∧
        l.Sets Attribute.script.names "Script" (.bool true) ∧
        (d.declaration.bearer d.kind ⟨.relative, ["Unit.h"]⟩ Bearer.noEnum).lookup Bearer.noEnum .script =
          .ok (.bool true) := by
  have hrun : ((Reader.ofSettings {}).read ⟨.relative, ["Unit.h"]⟩
        ("RClass(DefaultFieldAttributes = \x7b Scriptable = false \x7d)\n" ++
          "struct Unit \x7b\nRBody();\nRField(Script = true)\nint a;\n\x7d;")
      |>.toOption.any fun h => h.entities.any fun d => d.kind == .field &&
        ((Reader.ofSettings {}).layers? (Text.lines
          ("RClass(DefaultFieldAttributes = \x7b Scriptable = false \x7d)\n" ++
            "struct Unit \x7b\nRBody();\nRField(Script = true)\nint a;\n\x7d;")) d).any fun l =>
          l.defaults.get? "Scriptable" = some (.bool false) ∧
            l.Sets Attribute.script.names "Script" (.bool true)) = true := by
    rw [read_ofList_append, Text.lines_ofList_append]
    decide +kernel
  obtain ⟨h, hread, hrun⟩ := Checked.exists_ok_of_any hrun
  obtain ⟨d, hd, hrun⟩ := List.any_eq_true.mp hrun
  obtain ⟨hfield, hrun⟩ := Bool.and_eq_true_iff.mp hrun
  have hkind : d.kind = .field := beq_iff_eq.mp hfield
  obtain ⟨l, hl, hrun⟩ := (Option.any_eq_true _ _).mp hrun
  obtain ⟨hdefault, hset⟩ := of_decide_eq_true hrun
  obtain ⟨_, hl', hlookup⟩ := lookup_of_own_list hread hd (.inl hkind)
  obtain rfl := Option.some.inj (hl.symm.trans hl')
  exact ⟨h, d, l, hread, hd, hkind, hdefault, hset,
    hlookup .script (by decide) (by decide) (by decide) "Script" (.bool true) hset Bearer.noEnum⟩

/-- A default under an earlier name of the attribute overrules the member's own list. -/
theorem own_list_overruled :
    ∃ (h : Header) (d : Entity) (l : Layers),
      (Reader.ofSettings {}).read ⟨.relative, ["Unit.h"]⟩
          ("RClass(DefaultFieldAttributes = \x7b Editor = false \x7d)\n" ++
            "struct Unit \x7b\nRBody();\nRField(Edit = true)\nint a;\n\x7d;") = .ok h ∧
        d ∈ h.entities ∧ d.kind = .field ∧
        (Reader.ofSettings {}).layers? (Text.lines ("RClass(DefaultFieldAttributes = \x7b Editor = false \x7d)\n" ++
            "struct Unit \x7b\nRBody();\nRField(Edit = true)\nint a;\n\x7d;")) d = some l ∧
        l.Sets Attribute.editor.names "Edit" (.bool true) ∧
        (d.declaration.bearer d.kind ⟨.relative, ["Unit.h"]⟩ Bearer.noEnum).lookup Bearer.noEnum .editor =
          .ok (.bool false) := by
  have hrun : ((Reader.ofSettings {}).read ⟨.relative, ["Unit.h"]⟩
        ("RClass(DefaultFieldAttributes = \x7b Editor = false \x7d)\n" ++
          "struct Unit \x7b\nRBody();\nRField(Edit = true)\nint a;\n\x7d;")
      |>.toOption.any fun h => h.entities.any fun d => (d.kind == .field &&
        ((d.declaration.bearer d.kind ⟨.relative, ["Unit.h"]⟩ Bearer.noEnum).lookup Bearer.noEnum .editor).toOption ==
          some (.bool false)) &&
        ((Reader.ofSettings {}).layers? (Text.lines ("RClass(DefaultFieldAttributes = \x7b Editor = false \x7d)\n" ++
            "struct Unit \x7b\nRBody();\nRField(Edit = true)\nint a;\n\x7d;")) d).any fun l =>
          l.Sets Attribute.editor.names "Edit" (.bool true)) = true := by
    rw [read_ofList_append, Text.lines_ofList_append]
    decide +kernel
  obtain ⟨h, hread, hrun⟩ := Checked.exists_ok_of_any hrun
  obtain ⟨d, hd, hrun⟩ := List.any_eq_true.mp hrun
  obtain ⟨hfound, hrun⟩ := Bool.and_eq_true_iff.mp hrun
  obtain ⟨hfield, hlookup⟩ := Bool.and_eq_true_iff.mp hfound
  obtain ⟨l, hl, hset⟩ := (Option.any_eq_true _ _).mp hrun
  exact ⟨h, d, l, hread, hd, beq_iff_eq.mp hfield, hl, of_decide_eq_true hset,
    toOption_eq_some.mp (beq_iff_eq.mp hlookup)⟩

end Reader

end HeaderReflection
