import HeaderReflection.Program.Entity
import HeaderReflection.Proofs.Attribute.Reserved
import HeaderReflection.Proofs.Source.Characters
import HeaderReflection.Proofs.Source.Declared
import HeaderReflection.Proofs.Source.Made
import HeaderReflection.Proofs.Source.NativeText

/-! # Reserved attributes in a header

Some attributes are reserved for native spellings of the language, such as `[[nodiscard]]`, and nobody may set
them under their names.

* The attributes of a declaration are merged from default bags of the settings and of its owner, from the
  attribute list of its marker, and from the native attributes in its own text.
* The bags of the settings are checked before anything is read (`Reader.settableDefaults_of_read`), a list
  when it is read (`Reader.isSettable_of_isListBag`), and the default bags of a class or enum when it is made.
* So only the native attributes can bring a reserved attribute, and only by a native spelling of it that
  stands in the text (`Reader.read_reserved`).

This is an invariant of reading a class and an enum (`Reader.reservedClass_invariant`,
`Reader.reservedEnum_invariant`). -/

namespace HeaderReflection

open Attribute Checked

/-! ### Settable bags -/

namespace Reader

variable {r : Reader} {lines : List String}

/-- The text that declares an entity of a header with the given lines. -/
def ownText? (r : Reader) (lines : List String) : Entity → Option (List Char)
  | .enumerator _ x => r.enumeratorAt? lines x.line
  | d => r.declarationAt? lines d.declaration.line

theorem isSettable_of_isListBag {bag : Bag} (h : IsListBag bag) : IsSettable bag := by
  obtain ⟨s, hs⟩ := h
  exact attributeList_yields.of_eval hs

/-- No default bag has a reserved attribute. -/
structure SettableDefaults (d : DefaultBags) : Prop where
  classes : IsSettable d.classes
  fields : IsSettable d.fields
  methods : IsSettable d.methods
  enums : IsSettable d.enums
  enumerators : IsSettable d.enumerators

/-- The default bags of the settings have no reserved attribute if a header is read at all. -/
theorem settableDefaults_of_read {path : SourcePath} {text : String} {h : Header}
    (hr : r.read path text = .ok h) : SettableDefaults r.settings.defaults := by
  obtain ⟨_, hcheck, _⟩ := bind_eq_ok.mp hr
  have hcheck := lift_eq_ok.mp (placedAt_eq_ok.mp hcheck)
  obtain ⟨_, hclasses, hcheck⟩ := bind_eq_ok.mp hcheck
  obtain ⟨_, hfields, hcheck⟩ := bind_eq_ok.mp hcheck
  obtain ⟨_, hmethods, hcheck⟩ := bind_eq_ok.mp hcheck
  obtain ⟨_, henums, hcheck⟩ := bind_eq_ok.mp hcheck
  obtain ⟨_, henumerators, _⟩ := bind_eq_ok.mp hcheck
  exact ⟨isSettable_of_rejectUnsettable hclasses, isSettable_of_rejectUnsettable hfields,
    isSettable_of_rejectUnsettable hmethods, isSettable_of_rejectUnsettable henums,
    isSettable_of_rejectUnsettable henumerators⟩

/-! ### Whole headers -/

/-- The attributes are those of a declaration at a line, in whose text the reserved ones are written. -/
def IsWrittenAt (r : Reader) (lines : List String) (line : Nat) (bag : Bag) : Prop :=
  ∃ text, r.declarationAt? lines line = some text ∧ NativeBag text bag

/-- Nothing in a class has a reserved attribute that is not written in its own text. -/
structure ReservedClass (r : Reader) (lines : List String) (c : Class) : Prop where
  own : r.IsWrittenAt lines c.line c.attributes
  defaultFields : IsSettable c.defaultFieldAttributes
  defaultMethods : IsSettable c.defaultMethodAttributes
  fields : ∀ f ∈ c.fields, r.IsWrittenAt lines f.line f.attributes
  methods : ∀ m ∈ c.methods, r.IsWrittenAt lines m.line m.attributes

/-- Nothing in an enum has a reserved attribute that is not written in its own text. -/
structure ReservedEnum (r : Reader) (lines : List String) (e : Enumeration) : Prop where
  own : r.IsWrittenAt lines e.line e.attributes
  defaultEnumerators : IsSettable e.defaultEnumeratorAttributes
  enumerators : ∀ x ∈ e.enumerators, ∃ text, r.enumeratorAt? lines x.line = some text ∧
    NativeBag text x.attributes

variable {path : SourcePath}

theorem isWrittenAt_of_merge {site : MarkerSite} {text : List Char} (hsite : site.Declares r path lines text)
    {d : Declaration} {k : DeclarationKind} {bag native : Bag} (hbag : IsSettable bag)
    (hnative : NativeBag text native)
    (hd : d.MadeAt site.path site.line k ((bag.merge site.attributes).merge native)) :
    r.IsWrittenAt lines d.line d.attributes := by
  refine ⟨text, hd.line ▸ hsite.text, ?_⟩
  rw [hd.attributes]
  exact (hbag.merge (isSettable_of_isListBag hsite.attributes)).nativeBag_merge hnative

theorem reservedClass_invariant (hdefaults : SettableDefaults r.settings.defaults) :
    r.ClassInvariant path lines (r.ReservedClass lines) where
  declare := by
    intro site text c hsite hc
    obtain ⟨head, hhead, hc⟩ := classOf_makes site text c hc
    refine ⟨isWrittenAt_of_merge hsite hdefaults.classes (ClassHead.read_finds.of_eval hhead) hc.made,
      isSettable_of_rejectUnsettable hc.defaultFields, isSettable_of_rejectUnsettable hc.defaultMethods, ?_, ?_⟩
    · rw [hc.fields]
      exact fun f hf => absurd hf List.not_mem_nil
    · rw [hc.methods]
      exact fun m hm => absurd hm List.not_mem_nil
  body := fun _ hc => ⟨hc.own, hc.defaultFields, hc.defaultMethods, hc.fields, hc.methods⟩
  field := by
    intro site access text c f hsite hc hf
    obtain ⟨t, ht, hf⟩ := fieldOf_makes site c access text f hf
    refine ⟨hc.own, hc.defaultFields, hc.defaultMethods, fun g hg => ?_, hc.methods⟩
    rcases List.mem_append.mp hg with hg | hg
    · exact hc.fields g hg
    · obtain rfl := List.mem_singleton.mp hg
      exact isWrittenAt_of_merge hsite (hdefaults.fields.merge hc.defaultFields)
        (FieldText.read_finds.of_eval ht) hf
  method := by
    intro site access text c d m hsite hc hm hd
    obtain ⟨t, ht, hm⟩ := methodOf_makes site c access text m hm
    obtain ⟨ps, rfl⟩ := claimProperties_yields c m d hd
    refine ⟨hc.own, hc.defaultFields, hc.defaultMethods, hc.fields, fun k hk => ?_⟩
    rcases List.mem_append.mp hk with hk | hk
    · exact hc.methods k hk
    · obtain rfl := List.mem_singleton.mp hk
      exact isWrittenAt_of_merge hsite (hdefaults.methods.merge hc.defaultMethods)
        (MethodText.read_finds.of_eval ht) hm

theorem reservedEnum_invariant (hdefaults : SettableDefaults r.settings.defaults) :
    r.EnumInvariant path lines (r.ReservedEnum lines) where
  declare := by
    intro site text rest head e hsite hhead he
    have he := enumOf_makes site head e he
    have hnative := EnumHead.read_finds.of_eval (Lexer.eval_eq_ok_of_split hhead)
    refine ⟨isWrittenAt_of_merge hsite hdefaults.enums hnative he.made,
      isSettable_of_rejectUnsettable he.defaultEnumerators, ?_⟩
    rw [he.enumerators]
    exact fun x hx => absurd hx List.not_mem_nil
  enumerator := by
    intro body line text x hlist htext he hx
    obtain ⟨t, ht, -, hx⟩ := enumeratorOf_makes body line text x hx
    refine ⟨he.own, he.defaultEnumerators, fun y hy => ?_⟩
    rcases List.mem_append.mp hy with hy | hy
    · exact he.enumerators y hy
    · obtain rfl := List.mem_singleton.mp hy
      refine ⟨text, hx.line ▸ htext, ?_⟩
      rw [hx.attributes]
      exact ((hdefaults.enumerators.merge he.defaultEnumerators).merge
        (isSettable_of_isListBag hlist.isList)).nativeBag_merge (EnumeratorText.read_finds.of_eval ht)

/-- The reserved attributes of a declaration are written in its own text. -/
theorem exists_ownText_of_mem {h : Header} (hclasses : ∀ c ∈ h.classes, r.ReservedClass lines c)
    (henums : ∀ e ∈ h.enums, r.ReservedEnum lines e) :
    ∀ d ∈ h.entities, d.kind ≠ .property →
      ∃ own, r.ownText? lines d = some own ∧ NativeBag own d.declaration.attributes := by
  refine Header.forall_mem_entities.mpr ⟨fun c hc => ?_, fun e he => ?_⟩
  · have hreserved := hclasses c hc
    exact Entity.forall_mem_ofClass.mpr ⟨fun _ => hreserved.own, fun f hf _ => hreserved.fields f hf,
      fun m hm _ => hreserved.methods m hm, fun _ _ hkind => absurd rfl hkind⟩
  · have hreserved := henums e he
    exact Entity.forall_mem_ofEnum.mpr ⟨fun _ => hreserved.own, fun x hx _ => hreserved.enumerators x hx⟩

/-- Reserved attributes cannot be forged.  No default bag of the settings, no attribute list and no
default bag of a class or enum names one, and wherever a declaration of a header has one, its own text
lists a native spelling of that attribute. -/
theorem read_reserved {text : String} {h : Header} (hr : r.read path text = .ok h) {name : String}
    (hname : isReserved name = true) :
    (∀ bag ∈ r.settings.defaults.toList, name ∉ bag.keys) ∧
      (∀ s bag, Lexer.attributeList.eval s = .ok bag → name ∉ bag.keys) ∧
      (∀ c ∈ h.classes, name ∉ c.defaultFieldAttributes.keys ∧ name ∉ c.defaultMethodAttributes.keys) ∧
      (∀ e ∈ h.enums, name ∉ e.defaultEnumeratorAttributes.keys) ∧
      ∀ d ∈ h.entities, d.kind ≠ .property → name ∈ d.declaration.attributes.keys →
        ∃ own spelling a, r.ownText? (Text.lines text) d = some own ∧
          nativeNames.lookup spelling = some a ∧ a.name = name ∧ WritesNative own spelling := by
  have hdefaults := settableDefaults_of_read hr
  have hclasses := read_classes (reservedClass_invariant hdefaults) hr
  have henums := read_enums (reservedEnum_invariant hdefaults) hr
  have hfree : ∀ bag, IsSettable bag → name ∉ bag.keys := fun bag hbag hmem =>
    absurd hname (by simp [hbag name hmem])
  refine ⟨?_, ?_, ?_, ?_, ?_⟩
  · intro bag hbag
    simp only [DefaultBags.toList, List.mem_cons, List.not_mem_nil, or_false] at hbag
    rcases hbag with rfl | rfl | rfl | rfl | rfl
    · exact hfree _ hdefaults.classes
    · exact hfree _ hdefaults.fields
    · exact hfree _ hdefaults.methods
    · exact hfree _ hdefaults.enums
    · exact hfree _ hdefaults.enumerators
  · exact fun s bag hs => hfree bag (isSettable_of_isListBag ⟨s, hs⟩)
  · exact fun c hc => ⟨hfree _ (hclasses c hc).defaultFields, hfree _ (hclasses c hc).defaultMethods⟩
  · exact fun e he => hfree _ (henums e he).defaultEnumerators
  · intro d hd hkind hmem
    obtain ⟨own, hown, hbag⟩ := exists_ownText_of_mem hclasses henums d hd hkind
    obtain ⟨spelling, a, hspelling, ha, hwrites⟩ := hbag name hmem hname
    exact ⟨own, spelling, a, hown, hspelling, ha, hwrites⟩

/-- A class that is marked in its own text has the reserved attribute for it. -/
theorem read_reserved_nodiscard :
    ∃ (h : Header) (d : Entity) (own : List Char),
      (Reader.ofSettings {}).read ⟨.relative, ["Unit.h"]⟩
          "RClass(Abstract)\nclass [[nodiscard]] Unit \x7b\nRBody();\n\x7d;" = .ok h ∧
        isReserved "NoDiscard" = true ∧ d ∈ h.entities ∧ d.kind ≠ .property ∧
        "NoDiscard" ∈ d.declaration.attributes.keys ∧
        ∃ spelling a, nativeNames.lookup spelling = some a ∧ a.name = "NoDiscard" ∧
          WritesNative own spelling := by
  have hrun : ((Reader.ofSettings {}).read ⟨.relative, ["Unit.h"]⟩
      "RClass(Abstract)\nclass [[nodiscard]] Unit \x7b\nRBody();\n\x7d;"
      |>.toOption.any fun h => h.entities.any fun d =>
        d.kind != .property && d.declaration.attributes.keys.contains "NoDiscard") = true := by
    rw [read_ofList]
    decide +kernel
  obtain ⟨h, hread, hrun⟩ := Checked.exists_ok_of_any hrun
  obtain ⟨d, hd, hfound⟩ := List.any_eq_true.mp hrun
  obtain ⟨hkind, hkey⟩ := Bool.and_eq_true_iff.mp hfound
  have hkind : d.kind ≠ .property := bne_iff_ne.mp hkind
  have hkey : "NoDiscard" ∈ d.declaration.attributes.keys := List.contains_iff_mem.mp hkey
  have hreserved : isReserved "NoDiscard" = true := isReserved_iff.mpr (by decide)
  obtain ⟨-, -, -, -, hall⟩ := read_reserved hread hreserved
  obtain ⟨own, spelling, a, -, hspelling, ha, hwrites⟩ := hall d hd hkind hkey
  exact ⟨h, d, own, hread, hreserved, hd, hkind, hkey, spelling, a, hspelling, ha, hwrites⟩

end Reader

end HeaderReflection
