import HeaderReflection.Derivation.Outcome
import HeaderReflection.Proofs.Derivation.MethodNames
import HeaderReflection.Proofs.Derivation.Planned
import HeaderReflection.Proofs.Source.Accepted
import HeaderReflection.Proofs.Source.Characters

/-! # What can go wrong in a derivation

A bag of attributes is checked when its declaration is read, but attributes that name an enum are put off,
because not all enums are known then.  The derivation looks attributes up again, so it could fail over any of
them.

* Once the bags of its declarations passed their check, a class cannot fail over any other attribute than
  those that were put off (`DeriveFault`, `Class.deriveFault_of_derive`), and these never lead to an enum that
  is not there (`DeriveFault.ne_enumNotReflected`).
* What else can go wrong is that something is there already: a method in a role, an accessor of a property, or
  a name that two methods of a class share.
* An enum cannot fail at all (`Enumeration.exists_derive`).

The bags of accepted headers passed their check (`Class.ReadFrom.valid`).  So a fault in deriving an accepted
program is one of these, in one of its classes (`Program.derivation_of_validated`). -/

namespace HeaderReflection

open Checked

/-- What can go wrong with a class whose bags passed their check. -/
inductive DeriveFault : Cause → Prop where
  | flags {e : Cause} (h : FlagFault e) : DeriveFault e
  | synthesizedTwice (role className existing : String) :
      DeriveFault (.synthesizedTwice role className existing)
  | accessorRepeated (role property : String) (line : Nat) :
      DeriveFault (.accessorRepeated role property line)
  | uniqueNameTaken : DeriveFault .uniqueNameTaken
  | overloadWithDefaults (name : String) : DeriveFault (.overloadWithDefaults name)
  | abstractInConcrete (method classType : String) : DeriveFault (.abstractInConcrete method classType)

namespace DeriveFault

variable {e : Cause}

/-- A fault about an attribute is about one that names an enum. -/
theorem mem_deferred (h : DeriveFault e) (he : e.category = .attribute) :
    ∃ a ∈ Bearer.deferred, ∃ v, e = .invalidAttribute a.name v := by
  cases h with
  | flags h =>
      cases h with
      | invalid ha v => exact ⟨_, ha, v, rfl⟩
      | exclusive => cases he
      | outOfRange => cases he
      | overlong => cases he
  | synthesizedTwice => cases he
  | accessorRepeated => cases he
  | uniqueNameTaken => cases he
  | overloadWithDefaults => cases he
  | abstractInConcrete => cases he

theorem ne_enumNotReflected (h : DeriveFault e) (name : String) : e ≠ .enumNotReflected name := by
  rintro rfl
  cases h with
  | flags h => cases h

end DeriveFault

/-! ### Classes -/

section run

variable {P : Cause → Prop}
  (htwice : ∀ role className existing, P (.synthesizedTwice role className existing))
  (hrepeated : ∀ role property line, P (.accessorRepeated role property line))

include htwice hrepeated

/-- Performing an effect fails if the effect is a failure, or if something is there already. -/
theorem ClassWork.cause_of_perform {w : ClassWork} {e : Effect} {f : Fault}
    (he : ∀ g, e = .fail g → P g.cause) (h : w.perform e = .error f) : P f.cause := by
  cases e with
  | synthesize s d =>
      change w.synthesize s d = .error f at h
      unfold synthesize at h
      split at h
      · exact Except.error.inj h ▸ htwice _ _ _
      · cases h
  | bind role property m line =>
      unfold perform at h
      dsimp only at h
      split at h
      · cases h
      · rename_i cause hbind
        unfold Class.bindAccessor Property.bind at hbind
        split at hbind
        · rename_i hrepeats
          split at hrepeats
          · obtain rfl := Except.error.inj hrepeats
            obtain rfl := Except.error.inj hbind
            exact Except.error.inj h ▸ hrepeated _ _ _
          · cases hrepeats
        · cases hbind
  | fail g => exact Except.error.inj h ▸ he g rfl
  | annotate | note | raiseProxy | claimProperty | addToBody | declareFlag | attach | warn => cases h

theorem ClassWork.cause_of_run {w v : ClassWork} {es : List Effect} {f : Fault}
    (hes : ∀ g, .fail g ∈ es → P g.cause) (h : w.run es = (v, some f)) : P f.cause := by
  induction es generalizing w with
  | nil => cases h
  | cons e es ih =>
      unfold run at h
      cases hstep : w.perform e with
      | ok u =>
          simp only [hstep] at h
          exact ih (fun g hg => hes g (List.mem_cons_of_mem e hg)) h
      | error g =>
          simp only [hstep, Prod.mk.injEq, Option.some.injEq] at h
          rw [← h.2]
          refine cause_of_perform htwice hrepeated (fun k hk => hes k ?_) hstep
          rw [hk]
          exact List.mem_cons_self

end run

namespace Class

variable {x : PlanContext} {c : Class}

theorem exists_choices (hc : c.Valid) : ∃ h, c.choices x = .ok h := by
  have hown : ValidBag (c.bearer .classType c.path x.isEnum).kind (c.bearer .classType c.path x.isEnum).attributes :=
    hc.own
  obtain ⟨traits, htraits⟩ := Bearer.exists_traits hown
  obtain ⟨createsProxy, hcreates⟩ := Bearer.exists_bool hown (a := .createProxy) (by simp [Attribute.known])
    (by decide)
  obtain ⟨isSingleton, hsingleton⟩ := Bearer.exists_bool hown (a := .singleton) (by simp [Attribute.known])
    (by decide)
  obtain ⟨isAbstract, habstract⟩ := Bearer.exists_bool hown (a := .abstractClass) (by simp [Attribute.known])
    (by decide)
  unfold choices
  dsimp only
  rw [htraits, hcreates, hsingleton, habstract]
  exact ⟨_, rfl⟩

/-! ### The names of methods -/

theorem exists_of_sharedNameFault? {f : Fault} (h : c.sharedNameFault? = some f) :
    ∃ m ∈ c.methods, m.givenName? ≠ none ∧ ∃ notes, f = ⟨.uniqueNameTaken, some c.path, m.line, 1, notes⟩ := by
  obtain ⟨p, hp, h⟩ := List.exists_of_findSome?_eq_some h
  have hm : p.1 ∈ c.methods := List.mem_of_getElem? (List.mk_mem_zipIdx_iff_getElem?.mp hp)
  split at h
  · cases h
  · rename_i n hname
    dsimp only at h
    split at h
    · cases h
    · exact ⟨p.1, hm, hname ▸ nofun, _, (Option.some.inj h).symm⟩

theorem exists_of_overloadFault? {f : Fault} (h : c.overloadFault? = some f) :
    ∃ m ∈ c.methods, ∃ n, f = ⟨.overloadWithDefaults n, some c.path, m.actualLine, 1, []⟩ := by
  obtain ⟨i, j, m, k, hm, -, -, -, -, hf⟩ := overloads_of_overloadFault? h
  exact ⟨m, List.mem_of_getElem? hm, _, hf⟩

theorem exists_of_abstractFault? {f : Fault} (h : c.abstractFault? = some f) :
    ∃ m ∈ c.methods, f = ⟨.abstractInConcrete m.name c.fullType, some c.path, m.actualLine, 1, []⟩ := by
  obtain ⟨m, hm, rfl⟩ := Option.map_eq_some_iff.mp h
  exact ⟨m, List.mem_of_find?_eq_some hm, rfl⟩

/-- What is wrong with the members of a class is one of three things. -/
theorem memberFault?_cases {isAbstract : Bool} {f : Fault} (h : c.memberFault? isAbstract = some f) :
    c.sharedNameFault? = some f ∨ c.overloadFault? = some f ∨ c.abstractFault? = some f := by
  unfold memberFault? nameFault? at h
  simp only [Option.orElse_eq_orElse, Option.orElse_eq_or, Option.or_eq_some_iff] at h
  rcases h with (hshared | ⟨-, hoverload⟩) | ⟨-, hmember⟩
  · exact .inl hshared
  · exact .inr (.inl hoverload)
  · cases isAbstract with
    | true => cases hmember
    | false => exact .inr (.inr hmember)

theorem deriveFault_of_memberFault? {isAbstract : Bool} {f : Fault} (h : c.memberFault? isAbstract = some f) :
    DeriveFault f.cause := by
  rcases memberFault?_cases h with hshared | hoverload | habstract
  · obtain ⟨m, -, -, notes, rfl⟩ := exists_of_sharedNameFault? hshared
    exact .uniqueNameTaken
  · obtain ⟨m, -, n, rfl⟩ := exists_of_overloadFault? hoverload
    exact .overloadWithDefaults n
  · obtain ⟨m, -, rfl⟩ := exists_of_abstractFault? habstract
    exact .abstractInConcrete _ _

theorem deriveFault_of_derive (hc : c.Valid) {f : Fault} (hf : (c.derive x).fault = some f) :
    DeriveFault f.cause := by
  obtain ⟨h, hchoices⟩ := exists_choices (x := x) hc
  unfold derive at hf
  rw [hchoices] at hf
  dsimp only at hf
  split at hf
  · rename_i hrun
    obtain rfl := Option.some.inj hf
    refine ClassWork.cause_of_run .synthesizedTwice .accessorRepeated (fun g hg => ?_) hrun
    cases planned_of_mem_plan hc hg with
    | fail hflags => exact .flags hflags
  · split at hf
    · rename_i hmember
      obtain rfl := Option.some.inj hf
      exact deriveFault_of_memberFault? hmember
    · cases hf

theorem ReadFrom.valid {path : SourcePath} (hc : c.ReadFrom path) : c.Valid :=
  ⟨hc.own.valid, fun f hf => (hc.fields f hf).valid, fun m hm => (hc.methods m hm).valid⟩

end Class

/-! ### Enums -/

theorem Enumerator.exists_derive {y : Enumerator} (hy : ValidBag .enumerator y.attributes)
    (isEnum : String → Bool) (path : SourcePath) : ∃ d, y.derive isEnum path = .ok d := by
  obtain ⟨t, ht⟩ := Bearer.exists_traits (b := y.bearer .enumerator path isEnum) hy
  unfold derive
  rw [ht]
  exact ⟨_, rfl⟩

theorem Enumeration.exists_derive {e : Enumeration} (he : ValidBag .enumType e.attributes)
    (henumerators : ∀ y ∈ e.enumerators, ValidBag .enumerator y.attributes) (isEnum : String → Bool) :
    ∃ d, e.derive isEnum = .ok d := by
  obtain ⟨t, ht⟩ := Bearer.exists_traits (b := e.bearer .enumType e.path isEnum) he
  obtain ⟨ys, hys⟩ := exists_mapM_eq_ok (f := fun y => y.derive isEnum e.path) fun y hy =>
    Enumerator.exists_derive (henumerators y hy) isEnum e.path
  unfold derive
  rw [ht, hys]
  exact ⟨_, rfl⟩

/-! ### Programs -/

namespace Program

variable {p : Program}

theorem IsAccepted.readFrom_of_mem_classes (hp : p.IsAccepted) {c : Class} (hc : c ∈ p.classes) :
    ∃ h ∈ p.headers, c ∈ h.classes ∧ c.ReadFrom h.path := by
  obtain ⟨h, hh, hc⟩ := List.mem_flatMap.mp hc
  obtain ⟨r, text, hr⟩ := hp h hh
  exact ⟨h, hh, hc, Reader.readFrom_of_mem_classes hr hc⟩

theorem IsAccepted.readFrom_of_mem_enums (hp : p.IsAccepted) {e : Enumeration} (he : e ∈ p.enums) :
    ∃ h ∈ p.headers, e ∈ h.enums ∧ e.ReadFrom h.path := by
  obtain ⟨h, hh, he⟩ := List.mem_flatMap.mp he
  obtain ⟨r, text, hr⟩ := hp h hh
  exact ⟨h, hh, he, Reader.readFrom_of_mem_enums hr he⟩

/-- What goes wrong in deriving a program of accepted headers goes wrong in one of its classes. -/
theorem IsAccepted.exists_fault_of_mem (hp : p.IsAccepted) {s : Settings} {f : Fault}
    (hf : f ∈ p.derivationFaults s) :
    ∃ h ∈ p.headers, ∃ c ∈ h.classes, c.ReadFrom h.path ∧
      ∃ g, (c.derive (p.planContext s)).fault = some g ∧ f = g.placedAt (some c.path) c.line := by
  rcases List.mem_append.mp hf with hf | hf
  · obtain ⟨c, hc, hf⟩ := List.mem_filterMap.mp hf
    obtain ⟨g, hg, rfl⟩ := Option.map_eq_some_iff.mp hf
    obtain ⟨h, hh, hc, hread⟩ := hp.readFrom_of_mem_classes hc
    exact ⟨h, hh, c, hc, hread, g, hg, rfl⟩
  · obtain ⟨e, he, hf⟩ := List.mem_filterMap.mp hf
    obtain ⟨g, hg, -⟩ := Option.map_eq_some_iff.mp hf
    obtain ⟨h, -, -, hread⟩ := hp.readFrom_of_mem_enums he
    obtain ⟨d, hd⟩ := Enumeration.exists_derive hread.own.valid (fun y hy => (hread.enumerators y hy).valid)
      p.hasEnum
    unfold Enumeration.outcome at hg
    rw [hd] at hg
    cases hg

theorem IsAccepted.deriveFault (hp : p.IsAccepted) {s : Settings} {f : Fault}
    (hf : f ∈ p.derivationFaults s) : DeriveFault f.cause := by
  obtain ⟨h, -, c, -, hread, g, hg, rfl⟩ := hp.exists_fault_of_mem hf
  rw [Fault.cause_placedAt]
  exact Class.deriveFault_of_derive hread.valid hg

/-- Attributes that passed their check do not fail later.  Once a bag was checked with the attributes that
name an enum put off, every other attribute of the catalog can be read from it, whatever stands in for a
missing value.  So if every header of a program was accepted, deriving it the first time finds no fault in
an attribute but in one of those that were put off, every enum is derived, and how a field holds flags is
never found to lack its enum. -/
theorem derivation_of_validated :
    (∀ (b : Bearer) (isEnum : String → Bool), b.validate isEnum Bearer.deferred = .ok () →
      ∀ a ∈ Attribute.known, a ∉ Bearer.deferred → ∀ isEnum,
        b.lookup isEnum a = .ok ((b.find? a).getD a.default) ∧
          ∀ d, (b.lookup? isEnum a).map (·.getD d) = .ok ((b.find? a).getD d)) ∧
    ∀ p : Program, p.IsAccepted → ∀ s : Settings,
      (∀ f ∈ p.derivationFaults s, f.cause.category = .attribute →
        ∃ a ∈ Bearer.deferred, ∃ v, f.cause = .invalidAttribute a.name v) ∧
      (∀ e ∈ p.enums, ∃ d, e.derive p.hasEnum = .ok d) ∧
      (∀ c ∈ p.classes, ∀ f ∈ c.fields, ∀ g name, c.flagUse? (p.planContext s) f = .error g →
        g.cause ≠ .enumNotReflected name) ∧
      ∀ f ∈ p.derivationFaults s, ∀ name, f.cause ≠ .enumNotReflected name := by
  refine ⟨fun b p hb a ha hdeferred isEnum => ?_, fun p hp s => ⟨?_, ?_, ?_, ?_⟩⟩
  · have hvalid := Bearer.validBag_of_validate hb
    have hcheck : a.check ≠ .reflectedEnum := fun h => hdeferred (Attribute.mem_deferred_of_check ha h)
    refine ⟨Bearer.lookup_of_validBag hvalid ha hcheck isEnum, fun d => ?_⟩
    rw [Bearer.lookup?_of_validBag hvalid ha hcheck]
    rfl
  · exact fun f hf => (hp.deriveFault hf).mem_deferred
  · intro e he
    obtain ⟨h, -, -, hread⟩ := hp.readFrom_of_mem_enums he
    exact Enumeration.exists_derive hread.own.valid (fun y hy => (hread.enumerators y hy).valid) p.hasEnum
  · rintro c hc f hf g name hg hcause
    obtain ⟨h, -, -, hread⟩ := hp.readFrom_of_mem_classes hc
    have hends := Class.flagUse?_ends (x := p.planContext s) hread.valid hf
    rw [hg] at hends
    change FlagFault g.cause at hends
    rw [hcause] at hends
    cases hends
  · exact fun f hf => (hp.deriveFault hf).ne_enumNotReflected

/-- A field whose flags are those of an enum that no header declares. -/
theorem derivation_of_validated_flags :
    (∃ b : Bearer, b.validate b.isEnum Bearer.deferred = .ok () ∧
      b.lookup b.isEnum .displayName = .ok (.str "Colors") ∧
      (b.lookup? b.isEnum .onChange).map (·.getD (.str "none")) = .ok (.str "none")) ∧
    ∃ h : Header,
      (Reader.ofSettings {}).read ⟨.relative, ["Unit.h"]⟩
          ("RClass(Abstract)\nclass Unit \x7b\nRBody();\npublic:\nRField(Flags = Color)\nint mColors;\n\x7d;") =
        .ok h ∧
      ∃ f ∈ (⟨[h]⟩ : Program).derivationFaults {}, ∃ a ∈ Bearer.deferred, ∃ v,
        f.cause = .invalidAttribute a.name v := by
  constructor
  · let b : Bearer :=
      { kind := .field, attributes := [("DisplayName", .str "Colors"), ("Flags", .str "Color")] }
    have hnone : (b.attributes.findSome? fun m => b.memberFault? b.isEnum Bearer.deferred m.1 m.2) = none := by
      decide +kernel
    have hb : b.validate b.isEnum Bearer.deferred = .ok () := by
      unfold Bearer.validate
      rw [hnone]
    obtain ⟨hlookup, -⟩ := derivation_of_validated
    refine ⟨b, hb, ?_, ?_⟩
    · exact (hlookup b _ hb .displayName (by simp [Attribute.known]) (by decide) _).1
    · exact (hlookup b _ hb .onChange (by simp [Attribute.known]) (by decide) _).2 _
  · have hrun : ((Reader.ofSettings {}).read ⟨.relative, ["Unit.h"]⟩
        "RClass(Abstract)\nclass Unit \x7b\nRBody();\npublic:\nRField(Flags = Color)\nint mColors;\n\x7d;").toOption.any
          (fun h => ((⟨[h]⟩ : Program).derivationFaults {}).any fun f => f.cause.category == .attribute) = true := by
      rw [Reader.read_ofList]
      decide +kernel
    obtain ⟨h, hread, hany⟩ := Checked.exists_ok_of_any hrun
    obtain ⟨f, hf, hcategory⟩ := List.any_eq_true.mp hany
    obtain ⟨hdeferred, -⟩ := derivation_of_validated.2 _ (.singleton hread) {}
    exact ⟨h, hread, f, hf, hdeferred f hf (beq_iff_eq.mp hcategory)⟩

end Program

end HeaderReflection
