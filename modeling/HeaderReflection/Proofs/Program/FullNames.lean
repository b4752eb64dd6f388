import HeaderReflection.Proofs.Source.Characters
import HeaderReflection.Proofs.Program.Identity
import HeaderReflection.Proofs.Session.Replay

/-! # Declarations by their full names

Full names of all kinds share one space of dotted names, and a declaration is looked up there by going through
all declarations in their order.  So a declaration that comes later can be hidden by one that comes before.

* In a program of accepted headers two declarations have the same full name in few ways (`Entity.Hides`): they
  are members of different kinds in one class, or one is a member of a type and the other belongs to a type
  inside it.
* That there are no other ways is shown for each two declarations in the order in which they are listed
  (`Entity.pairwise_entities`).  Names of types differ by assumption, and members of one kind have different
  names.
* A member of a type and what belongs to another type have one full name only if the name of one type
  continues that of the other (`IsInside`), since of two names that begin one text one continues the other.

A declaration is found by its full name unless one that is listed before it hides it
(`Program.findEntity?_fullName`), and this does happen (`Program.findEntity?_fullName_hidden`). -/

namespace HeaderReflection

/-! ### Dotted names -/

/-- A full name continues another one behind a dot. -/
def IsInside (inner outer : String) : Prop := ∃ rest, inner = outer ++ "." ++ rest

theorem append_dot_ne (s t : String) : s ≠ s ++ "." ++ t := by
  intro h
  have hlength := congrArg (fun u : String => u.toList.length) h
  simp only [String.toList_append, List.length_append, String.reduceToList, List.length_singleton] at hlength
  omega

/-- A name that begins with a shorter one and its dot continues that one, and what the shorter one leaves of the
text holds the dot behind the longer one. -/
theorem isInside_of_toList_eq {s t : String} {w x y : List Char} (ht : t.toList = s.toList ++ w)
    (h : '.' :: x = w ++ '.' :: y) (hne : s ≠ t) : IsInside t s ∧ '.' ∈ x := by
  cases w with
  | nil => exact absurd (String.toList_inj.mp (by simpa using ht.symm)) hne
  | cons d w =>
      obtain ⟨rfl, hx⟩ := List.cons.inj h
      refine ⟨⟨String.ofList w, String.toList_inj.mp ?_⟩, ?_⟩
      · simp [ht]
      · exact hx ▸ List.mem_append_right _ List.mem_cons_self

theorem isInside_of_append_eq {s t u v : String} (h : s ++ "." ++ u = t ++ "." ++ v) (hne : s ≠ t) :
    (IsInside t s ∧ '.' ∈ u.toList) ∨ (IsInside s t ∧ '.' ∈ v.toList) := by
  have hlists := congrArg String.toList h
  simp only [String.toList_append, String.reduceToList, List.append_assoc, List.singleton_append] at hlists
  rcases List.append_eq_append_iff.mp hlists with ⟨w, ht, hu⟩ | ⟨w, hs, hv⟩
  · exact .inl (isInside_of_toList_eq ht hu hne)
  · exact .inr (isInside_of_toList_eq hs hv hne.symm)

/-- The first element of a list that satisfies a test is the given one, or it is related to it. -/
theorem exists_find?_eq_some {α : Type} {R : α → α → Prop} {l : List α} (hl : l.Pairwise R) {p : α → Bool} {d : α}
    (hd : d ∈ l) (hp : p d = true) : ∃ e ∈ l, l.find? p = some e ∧ p e = true ∧ (e = d ∨ R e d) := by
  obtain ⟨e, he⟩ := Option.isSome_iff_exists.mp (List.find?_isSome.mpr ⟨d, hd, hp⟩)
  refine ⟨e, List.mem_of_find?_eq_some he, he, List.find?_some he, ?_⟩
  obtain ⟨-, before, behind, rfl, hbefore⟩ := List.find?_eq_some_iff_append.mp he
  rcases List.mem_append.mp hd with hmem | hmem
  · simpa [hp] using hbefore d hmem
  · rcases List.mem_cons.mp hmem with rfl | hmem
    · exact .inl rfl
    · exact .inr (List.rel_of_pairwise_cons (List.pairwise_append.mp hl).2.1 hmem)

namespace Entity

open Database (ownerName)

/-- A class or an enum. -/
def isType : Entity → Bool
  | .classType _ | .enumType _ => true
  | .field .. | .method .. | .property .. | .enumerator .. => false

/-- The name that stands behind that of the owner: of a method its unique name. -/
def label : Entity → String
  | .classType c => c.name
  | .field _ f => f.name
  | .method _ m => MethodLink.uniqueName m.name m.uid
  | .property _ q => q.name
  | .enumType e => e.name
  | .enumerator _ x => x.name

theorem fullName_of_isType {d : Entity} (h : d.isType = true) : d.fullName = ownerName d := by
  cases d with
  | classType c => rfl
  | enumType e => rfl
  | field | method | property | enumerator => cases h

theorem fullName_of_not_isType {d : Entity} (h : d.isType = false) :
    d.fullName = ownerName d ++ "." ++ d.label := by
  cases d with
  | classType | enumType => cases h
  | field | method | property | enumerator => rfl

/-- The ways in which the full name of a declaration can be that of one listed before it.  Either the former is a
method or property and the latter a field or method of the same class; or one of them is a member of a type, and
the other one is a type inside this type or, if the own name of the member has a dot, belongs to such a type. -/
inductive Hides : Entity → Entity → Prop
  | fieldMethod (c : Class) (f : Field) (m : Method) : Hides (.field c f) (.method c m)
  | fieldProperty (c : Class) (f : Field) (q : Property) : Hides (.field c f) (.property c q)
  | methodProperty (c : Class) (m : Method) (q : Property) : Hides (.method c m) (.property c q)
  | outer {d e : Entity} (hmember : d.isType = false) (hinside : IsInside (ownerName e) (ownerName d))
      (h : e.isType = true ∨ '.' ∈ d.label.toList) : Hides d e
  | inner {d e : Entity} (hmember : e.isType = false) (hinside : IsInside (ownerName d) (ownerName e))
      (h : d.isType = true ∨ '.' ∈ e.label.toList) : Hides d e

/-! ### Pairs of declarations -/

/-- Two declarations have different full names, or the first one hides the second. -/
def HidesIfEqual (d e : Entity) : Prop := d.fullName = e.fullName → d.Hides e

theorem hidesIfEqual_of_ownerName_ne {d e : Entity} (h : ownerName d ≠ ownerName e) : d.HidesIfEqual e := by
  intro heq
  cases hd : d.isType with
  | true =>
      rw [fullName_of_isType hd] at heq
      cases he : e.isType with
      | true => exact absurd (heq.trans (fullName_of_isType he)) h
      | false => exact .inner he ⟨e.label, heq.trans (fullName_of_not_isType he)⟩ (.inl hd)
  | false =>
      rw [fullName_of_not_isType hd] at heq
      cases he : e.isType with
      | true => exact .outer hd ⟨d.label, (fullName_of_isType he).symm.trans heq.symm⟩ (.inl he)
      | false =>
          rw [fullName_of_not_isType he] at heq
          rcases isInside_of_append_eq heq h with ⟨hinside, hdot⟩ | ⟨hinside, hdot⟩
          · exact .outer hd hinside (.inr hdot)
          · exact .inner he hinside (.inr hdot)

theorem hidesIfEqual_of_isType {d e : Entity} (hd : d.isType = true) (he : e.isType = false)
    (h : ownerName d = ownerName e) : d.HidesIfEqual e := by
  intro heq
  rw [fullName_of_isType hd, fullName_of_not_isType he, ← h] at heq
  exact absurd heq (append_dot_ne _ _)

theorem hidesIfEqual_of_label_ne {d e : Entity} (hd : d.isType = false) (he : e.isType = false)
    (h : ownerName d = ownerName e) (hne : d.label ≠ e.label) : d.HidesIfEqual e := by
  intro heq
  rw [fullName_of_not_isType hd, fullName_of_not_isType he, ← h] at heq
  exact absurd ((String.append_right_inj _).mp heq) hne

theorem pairwise_hidesIfEqual_map {α : Type} {f : α → Entity} {l : List α} (owner : String)
    (hmember : ∀ x, (f x).isType = false ∧ ownerName (f x) = owner)
    (hlabels : (l.map fun x => (f x).label).Nodup) : (l.map f).Pairwise HidesIfEqual := by
  unfold List.Nodup at hlabels
  rw [List.pairwise_map] at hlabels ⊢
  refine hlabels.imp fun {x y} hne => ?_
  exact hidesIfEqual_of_label_ne (hmember x).1 (hmember y).1 ((hmember x).2.trans (hmember y).2.symm) hne

theorem pairwise_ofClass {c : Class} (hfields : (c.fields.map (·.name)).Nodup)
    (hmethods : (c.methods.map (·.uid)).Nodup) (hproperties : (c.properties.map (·.2.name)).Nodup) :
    (ofClass c).Pairwise HidesIfEqual := by
  have hlabels : (c.methods.map fun m => MethodLink.uniqueName m.name m.uid).Nodup :=
    nodup_map_of_nodup_map hmethods fun _ _ _ _ h => MethodLink.uid_eq_of_uniqueName_eq h
  unfold ofClass
  refine List.pairwise_cons.mpr ⟨?_, List.pairwise_append.mpr ⟨List.pairwise_append.mpr ⟨?_, ?_, ?_⟩, ?_, ?_⟩⟩
  · simp only [List.forall_mem_append, List.forall_mem_map]
    exact ⟨⟨fun f _ => hidesIfEqual_of_isType rfl rfl rfl, fun m _ => hidesIfEqual_of_isType rfl rfl rfl⟩,
      fun q _ => hidesIfEqual_of_isType rfl rfl rfl⟩
  · exact pairwise_hidesIfEqual_map c.fullName (fun _ => ⟨rfl, rfl⟩) hfields
  · exact pairwise_hidesIfEqual_map c.fullName (fun _ => ⟨rfl, rfl⟩) hlabels
  · simp only [List.forall_mem_map]
    exact fun f _ m _ _ => .fieldMethod c f m
  · exact pairwise_hidesIfEqual_map c.fullName (fun _ => ⟨rfl, rfl⟩) hproperties
  · simp only [List.forall_mem_append, List.forall_mem_map]
    exact ⟨fun f _ q _ _ => .fieldProperty c f q.2, fun m _ q _ _ => .methodProperty c m q.2⟩

theorem pairwise_ofEnum {e : Enumeration} (henumerators : (e.enumerators.map (·.name)).Nodup) :
    (ofEnum e).Pairwise HidesIfEqual := by
  refine List.pairwise_cons.mpr ⟨?_, ?_⟩
  · exact List.forall_mem_map.mpr fun x _ => hidesIfEqual_of_isType rfl rfl rfl
  · exact pairwise_hidesIfEqual_map e.fullName (fun _ => ⟨rfl, rfl⟩) henumerators

theorem ownerName_of_mem_ofClass {c : Class} : ∀ d ∈ ofClass c, ownerName d = c.fullName :=
  forall_mem_ofClass.mpr ⟨rfl, fun _ _ => rfl, fun _ _ => rfl, fun _ _ => rfl⟩

theorem ownerName_of_mem_ofEnum {e : Enumeration} : ∀ d ∈ ofEnum e, ownerName d = e.fullName :=
  forall_mem_ofEnum.mpr ⟨rfl, fun _ _ => rfl⟩

end Entity

namespace Program

open Entity

/-- Types with different full names and what belongs to them. -/
theorem pairwise_hidesIfEqual {α : Type} {ts : List α} {name : α → String} {group : α → List Entity}
    (hnames : (ts.map name).Nodup) (howner : ∀ t, ∀ d ∈ group t, Database.ownerName d = name t)
    (hgroups : ∀ t ∈ ts, (group t).Pairwise HidesIfEqual) : (ts.flatMap group).Pairwise HidesIfEqual := by
  unfold List.Nodup at hnames
  rw [List.pairwise_map] at hnames
  refine List.pairwise_flatMap.mpr ⟨hgroups, hnames.imp fun {t u} hne d hd e he => ?_⟩
  refine hidesIfEqual_of_ownerName_ne ?_
  rw [howner t d hd, howner u e he]
  exact hne

/-- The declarations of a program whose types and members are told apart by their names. -/
theorem pairwise_entities {q : Program}
    (htypes : (q.classes.map (·.fullName) ++ q.enums.map (·.fullName)).Nodup)
    (hfields : ∀ c ∈ q.classes, (c.fields.map (·.name)).Nodup)
    (hmethods : ∀ c ∈ q.classes, (c.methods.map (·.uid)).Nodup)
    (hproperties : ∀ c ∈ q.classes, (c.properties.map (·.2.name)).Nodup)
    (henumerators : ∀ e ∈ q.enums, (e.enumerators.map (·.name)).Nodup) :
    q.entities.Pairwise HidesIfEqual := by
  obtain ⟨hclasses, henums, hdisjoint⟩ := List.nodup_append.mp htypes
  refine List.pairwise_append.mpr ⟨?_, ?_, fun d hd e he => ?_⟩
  · exact pairwise_hidesIfEqual hclasses (fun _ => ownerName_of_mem_ofClass) fun c hc =>
      pairwise_ofClass (hfields c hc) (hmethods c hc) (hproperties c hc)
  · exact pairwise_hidesIfEqual henums (fun _ => ownerName_of_mem_ofEnum) fun e he =>
      pairwise_ofEnum (henumerators e he)
  · obtain ⟨c, hc, hd⟩ := List.mem_flatMap.mp hd
    obtain ⟨n, hn, he⟩ := List.mem_flatMap.mp he
    refine hidesIfEqual_of_ownerName_ne ?_
    rw [ownerName_of_mem_ofClass d hd, ownerName_of_mem_ofEnum e he]
    exact hdisjoint _ (List.mem_map_of_mem hc) _ (List.mem_map_of_mem hn)

/-! ### Look-up -/

theorem IsAccepted.nodup_propertyNames {p : Program} (hp : p.IsAccepted) {s : Settings} {c : Class}
    (hc : c ∈ (p.derived s).classes) : (c.properties.map (·.2.name)).Nodup := by
  obtain ⟨d, hd, rfl⟩ := mem_classes_derived.mp hc
  obtain ⟨h, hh, hmem⟩ := List.mem_flatMap.mp hd
  obtain ⟨r, text, hr⟩ := hp h hh
  obtain ⟨_, _, _, hderives, -⟩ := Class.exists_derives (x := p.planContext s)
    (Reader.readFrom_of_mem_classes hr hmem) (Reader.isDeclared_of_mem_read hr hmem)
  have howns := hderives.follows.properties
  have hnames : (d.derive (p.planContext s)).result.properties.map (·.2.name) =
      (d.derive (p.planContext s)).result.properties.keys :=
    List.map_congr_left fun q hq => (howns.belongs q hq).name
  rw [hnames]
  exact howns.keys

/-- Declarations by their full names.  Let a program of accepted headers be derived, and let all its types have
different full names, the fields of each class and the enumerators of each enum different names, and all
declarations different identifiers.  Then each declaration is found by its full name, unless a declaration that is
listed before it hides it: then the first one with this full name is found. -/
theorem findEntity?_fullName {p : Program} (hp : p.IsAccepted) {s : Settings} {q : Program} (hq : q = p.derived s)
    (htypes : (q.classes.map (·.fullName) ++ q.enums.map (·.fullName)).Nodup)
    (hfields : ∀ c ∈ q.classes, (c.fields.map (·.name)).Nodup)
    (henumerators : ∀ e ∈ q.enums, (e.enumerators.map (·.name)).Nodup)
    (huids : (q.entities.map (·.declaration.uid)).Nodup) {d : Entity} (hd : d ∈ q.entities) :
    ∃ e ∈ q.entities, q.findEntity? d.fullName = some e ∧ e.fullName = d.fullName ∧ (e = d ∨ e.Hides d) := by
  subst hq
  have hpairwise := pairwise_entities htypes hfields (fun c hc => nodup_methodUids huids hc)
    (fun c hc => hp.nodup_propertyNames hc) henumerators
  obtain ⟨e, he, hfind, hname, hfirst⟩ :=
    exists_find?_eq_some (p := (·.fullName == d.fullName)) hpairwise hd (beq_self_eq_true d.fullName)
  have hname : e.fullName = d.fullName := beq_iff_eq.mp hname
  exact ⟨e, he, hfind, hname, hfirst.imp_right fun hhides => hhides hname⟩

/-- A field, a getter and a property of one class, and an enum inside the class. -/
theorem findEntity?_fullName_getter :
    ∃ h d e,
      (Reader.ofSettings {}).read ⟨.relative, ["Unit.h"]⟩
          ("RClass(Abstract)\nclass Unit \x7b\nRBody();\nprivate:\nRField(Getter = true)\nint count;\n\x7d;\n" ++
            "REnum(Namespace = Unit)\nenum Color \x7b\nRed\n\x7d;") = .ok h ∧
        d ∈ ((⟨[h]⟩ : Program).derived {}).entities ∧ d.kind = .property ∧
        ((⟨[h]⟩ : Program).derived {}).findEntity? d.fullName = some e ∧ e.fullName = d.fullName ∧
        (e = d ∨ e.Hides d) := by
  have hrun : ((Reader.ofSettings {}).read ⟨.relative, ["Unit.h"]⟩
      ("RClass(Abstract)\nclass Unit \x7b\nRBody();\nprivate:\nRField(Getter = true)\nint count;\n\x7d;\n" ++
        "REnum(Namespace = Unit)\nenum Color \x7b\nRed\n\x7d;")).toOption.any (fun h =>
        let q := (⟨[h]⟩ : Program).derived {}
        decide ((q.classes.map (·.fullName) ++ q.enums.map (·.fullName)).Nodup ∧
          (∀ c ∈ q.classes, (c.fields.map (·.name)).Nodup) ∧ (∀ e ∈ q.enums, (e.enumerators.map (·.name)).Nodup) ∧
          (q.entities.map (·.declaration.uid)).Nodup ∧ ∃ d ∈ q.entities, d.kind = .property)) = true := by
    rw [Reader.read_ofList_append]
    decide +kernel
  obtain ⟨h, hread, hderived⟩ := Checked.exists_ok_of_any hrun
  obtain ⟨htypes, hfields, henumerators, huids, d, hd, hkind⟩ := of_decide_eq_true hderived
  obtain ⟨e, -, hfind⟩ := findEntity?_fullName (.singleton hread) rfl htypes hfields henumerators huids hd
  exact ⟨h, d, e, hread, hd, hkind, hfind⟩

/-- The kind of what is found instead of a declaration, the kind of the declaration and its full name, for each
declaration that is not found by its full name. -/
def hidden (q : Program) : List (DeclarationKind × DeclarationKind × String) :=
  q.entities.filterMap fun d =>
    (q.findEntity? d.fullName).bind fun e =>
      if e.declaration.uid = d.declaration.uid then none else some (e.kind, d.kind, d.fullName)

/-- A field hides a method and a property of its class, and a class inside this class; a method hides a property;
and a property hides a field in the inner class. -/
theorem findEntity?_fullName_hidden :
    ∃ h : Header,
      (Reader.ofSettings {}).read ⟨.relative, ["Unit.h"]⟩
          ("RClass(Abstract)\nclass Unit \x7b\nRBody();\nRField(Getter = false)\nint Size_035ff1b959d46046;\n" ++
            "private:\nRField(Getter = true)\nint Part;\n" ++
            "RMethod(GetterFor = Walk_cb17c3a6b85a3247)\nint Walk();\n" ++
            "RMethod(GetterFor = Part.size)\nint Size();\n\x7d;\n" ++
            "RClass(Namespace = Unit)\nstruct Part \x7b\nRBody();\nRField()\nint size;\n\x7d;") = .ok h ∧
        (⟨[h]⟩ : Program).derivationFaults {} = [] ∧
        let q := (⟨[h]⟩ : Program).derived {}
        (q.classes.map (·.fullName) ++ q.enums.map (·.fullName)).Nodup ∧
          (∀ c ∈ q.classes, (c.fields.map (·.name)).Nodup) ∧ (∀ e ∈ q.enums, (e.enumerators.map (·.name)).Nodup) ∧
          (q.entities.map (·.declaration.uid)).Nodup ∧
          q.hidden = [(.field, .method, "Unit.Size_035ff1b959d46046"),
            (.method, .property, "Unit.Walk_cb17c3a6b85a3247"), (.field, .property, "Unit.Part"),
            (.field, .classType, "Unit.Part"), (.property, .field, "Unit.Part.size")] := by
  have hrun : ((Reader.ofSettings {}).read ⟨.relative, ["Unit.h"]⟩
      ("RClass(Abstract)\nclass Unit \x7b\nRBody();\nRField(Getter = false)\nint Size_035ff1b959d46046;\n" ++
        "private:\nRField(Getter = true)\nint Part;\n" ++
        "RMethod(GetterFor = Walk_cb17c3a6b85a3247)\nint Walk();\n" ++
        "RMethod(GetterFor = Part.size)\nint Size();\n\x7d;\n" ++
        "RClass(Namespace = Unit)\nstruct Part \x7b\nRBody();\nRField()\nint size;\n\x7d;")).toOption.any (fun h =>
        let q := (⟨[h]⟩ : Program).derived {}
        decide ((⟨[h]⟩ : Program).derivationFaults {} = [] ∧
          (q.classes.map (·.fullName) ++ q.enums.map (·.fullName)).Nodup ∧
          (∀ c ∈ q.classes, (c.fields.map (·.name)).Nodup) ∧ (∀ e ∈ q.enums, (e.enumerators.map (·.name)).Nodup) ∧
          (q.entities.map (·.declaration.uid)).Nodup ∧
          q.hidden = [(.field, .method, "Unit.Size_035ff1b959d46046"),
            (.method, .property, "Unit.Walk_cb17c3a6b85a3247"), (.field, .property, "Unit.Part"),
            (.field, .classType, "Unit.Part"), (.property, .field, "Unit.Part.size")])) = true := by
    rw [Reader.read_toList]
    simp only [String.toList_append]
    repeat rw [String.toList_ofList]
    decide +kernel
  obtain ⟨h, hread, hderived⟩ := Checked.exists_ok_of_any hrun
  exact ⟨h, hread, of_decide_eq_true hderived⟩

end Program

end HeaderReflection
