import HeaderReflection.Derivation.Plan
import HeaderReflection.Proofs.Attribute.Validity

/-! # What a plan can hold

A plan is computed from attributes, fields, enums and settings, and many properties of a derived class hold
whatever its plan is.  They follow from the shapes that the effects of a plan can have.

* Every effect of a plan has one of the shapes that `Class.Planned` lists (`Class.planned_of_mem_plan`).  Some
  shapes say that other effects are in the plan too: an accessor is bound only if it is made, and a method is
  attached only to a flag that is declared.
* `Class.AllPlanned` says it of a list of effects.  It is kept by all ways to put plans together, and so the
  plan of a class is taken apart as it was computed.
* If the bags of the class and of its members are valid, a plan fails only over the attributes of a field that
  name a reflected enum, or over the values of that enum (`FlagFault`).

A proof about runs of a plan is an induction whose step has one case for each shape. -/

namespace HeaderReflection

open Checked

/-- The attributes of a class and of its members passed their check. -/
structure Class.Valid (c : Class) : Prop where
  own : ValidBag .classType c.attributes
  fields : ∀ f ∈ c.fields, ValidBag .field f.attributes
  methods : ∀ m ∈ c.methods, ValidBag .method m.attributes

/-- What can be wrong with the flags of a field. -/
inductive FlagFault : Cause → Prop where
  | invalid {a : Attribute} (ha : a ∈ Bearer.deferred) (v : ValueFault) : FlagFault (.invalidAttribute a.name v)
  | exclusive : FlagFault .flagKindsExclusive
  | outOfRange (enumerator enumType : String) (value : Int) : FlagFault (.flagOutOfRange enumerator enumType value)
  | overlong : FlagFault (.overlong .number)

/-! ### Shapes of effects -/

theorem Bearer.exists_traits {b : Bearer} (hb : ValidBag b.kind b.attributes) :
    ∃ t, b.traits = .ok t := by
  obtain ⟨deprecated, hdeprecated⟩ := exists_mark hb (a := .deprecatedMark) (by simp [Attribute.known]) nofun
  obtain ⟨unimplemented, hunimplemented⟩ :=
    exists_bool hb (a := .unimplemented) (by simp [Attribute.known]) nofun
  obtain ⟨members, hmembers⟩ := exists_bool? hb (a := .documentMembers) (by simp [Attribute.known]) nofun
  obtain ⟨documented, hdocumented⟩ := exists_bool? hb (a := .documented) (by simp [Attribute.known]) nofun
  obtain ⟨noDiscard, hnoDiscard⟩ := exists_mark hb (a := .noDiscard) (by simp [Attribute.known]) nofun
  unfold traits
  rw [hdeprecated, hunimplemented, hmembers, hdocumented, hnoDiscard]
  exact ⟨_, rfl⟩

namespace Class

variable (x : PlanContext) (c : Class)

/-- The shapes of the effects in the plan `es` of a class. -/
inductive Planned (es : List Effect) : Effect → Prop where
  | annotate (o : Origin) (t : Traits) : Planned es (.annotate o t)
  | note (o : Origin) (n : DocNote) : Planned es (.note o n)
  | raiseProxy : Planned es .raiseProxy
  | singleton : Planned es (.synthesize ⟨.owner, "SingletonGetter", c.line⟩ (singletonDraft x c))
  | proxy {i : Nat} {m : Method} (hm : c.methods[i]? = some m) :
      Planned es (.synthesize ⟨.method i, "Proxy", m.line⟩ (proxyDraft x c m))
  | claimProperty {i : Nat} {f : Field} (hf : c.fields[i]? = some f) :
      Planned es (.claimProperty f.cleanName i f.type)
  | accessor {i : Nat} {f : Field} (hf : c.fields[i]? = some f) (role : AccessorRole) (d : MethodDraft) :
      Planned es (.synthesize ⟨.field i, role.label, f.line⟩ d)
  | bind {i : Nat} {f : Field} (role : AccessorRole) {s : Synthesis} {d : MethodDraft}
      (hf : c.fields[i]? = some f) (hmade : .synthesize s d ∈ es) :
      Planned es (.bind role f.cleanName (c.synthesize s d).link f.line)
  | addToBody (text : String) : Planned es (.addToBody text)
  | declareFlag {i : Nat} {f : Field} {name : String} {e : Enumeration} {y : Enumerator}
      (hf : c.fields[i]? = some f) (he : x.enumNamed name = some e) (hy : y ∈ e.enumerators) :
      Planned es (.declareFlag ⟨y.name, f.name, e.fullName ++ "." ++ y.name, []⟩)
  | flagAccessor {i : Nat} {f : Field} {name : String} {e : Enumeration} {y : Enumerator}
      {a : FlagAccessor} (hf : c.fields[i]? = some f) (he : x.enumNamed name = some e)
      (hy : y ∈ e.enumerators) (ha : ':' ∉ a.role.toList) (d : MethodDraft) :
      Planned es (.synthesize ⟨.field i, a.roleFor e y, f.line⟩ d)
  | attach (flag : String) {s : Synthesis} {d : MethodDraft} (hmade : .synthesize s d ∈ es) :
      Planned es (.attach flag (c.synthesize s d).link)
  | warn (line : Nat) (message : String) : Planned es (.warn line message)
  | fail {f : Fault} (hf : FlagFault f.cause)
      (hplace : (∃ g ∈ c.fields, f = c.fieldFault g f.cause) ∨ f = (Cause.overlong .number : Fault)) :
      Planned es (.fail f)

variable {x c}

theorem Planned.mono {es fs : List Effect} {e : Effect} (h : c.Planned x es e) (hsub : es ⊆ fs) :
    c.Planned x fs e := by
  cases h with
  | annotate o t => exact .annotate o t
  | note o n => exact .note o n
  | raiseProxy => exact .raiseProxy
  | singleton => exact .singleton
  | proxy hm => exact .proxy hm
  | claimProperty hf => exact .claimProperty hf
  | accessor hf role d => exact .accessor hf role d
  | bind role hf hmade => exact .bind role hf (hsub hmade)
  | addToBody text => exact .addToBody text
  | declareFlag hf he hy => exact .declareFlag hf he hy
  | flagAccessor hf he hy ha d => exact .flagAccessor hf he hy ha d
  | attach flag hmade => exact .attach flag (hsub hmade)
  | warn line message => exact .warn line message
  | fail hf hplace => exact .fail hf hplace

/-- All effects of a list have the shapes of a plan. -/
def AllPlanned (x : PlanContext) (c : Class) (es : List Effect) : Prop := ∀ e ∈ es, c.Planned x es e

theorem AllPlanned.nil : c.AllPlanned x [] := fun _ he => absurd he List.not_mem_nil

theorem AllPlanned.append {es fs : List Effect} (hes : c.AllPlanned x es) (hfs : c.AllPlanned x fs) :
    c.AllPlanned x (es ++ fs) := by
  intro e he
  rcases List.mem_append.mp he with he | he
  · exact (hes e he).mono (List.subset_append_left es fs)
  · exact (hfs e he).mono (List.subset_append_right es fs)

theorem AllPlanned.singleton {e : Effect} (he : c.Planned x [e] e) : c.AllPlanned x [e] := by
  intro f hf
  obtain rfl := List.mem_singleton.mp hf
  exact he

theorem AllPlanned.ite {p : Prop} [Decidable p] {es fs : List Effect} (hes : p → c.AllPlanned x es)
    (hfs : ¬p → c.AllPlanned x fs) : c.AllPlanned x (if p then es else fs) := by
  split
  · rename_i hp
    exact hes hp
  · rename_i hp
    exact hfs hp

theorem AllPlanned.flatMap {α : Type} {l : List α} {f : α → List Effect}
    (h : ∀ a ∈ l, c.AllPlanned x (f a)) : c.AllPlanned x (l.flatMap f) := by
  intro e he
  obtain ⟨a, ha, he⟩ := List.mem_flatMap.mp he
  exact (h a ha e he).mono fun g hg => List.mem_flatMap.mpr ⟨a, ha, hg⟩

/-- Effects of shapes that need no other effect. -/
theorem AllPlanned.map {α : Type} {l : List α} {f : α → Effect} (h : ∀ a ∈ l, c.Planned x [] (f a)) :
    c.AllPlanned x (l.map f) := by
  intro e he
  obtain ⟨a, ha, rfl⟩ := List.mem_map.mp he
  exact (h a ha).mono (List.nil_subset _)

/-! ### The parts of a plan -/

theorem allPlanned_ownerPlan (h : Choices) : c.AllPlanned x (ownerPlan x c h) := by
  unfold ownerPlan
  refine .append (.append (.append (.append ?_ ?_) ?_) ?_) ?_
  · exact .singleton (.annotate _ _)
  · exact .ite (fun _ => .singleton (.note _ _)) fun _ => .nil
  · exact .ite (fun _ => .singleton .raiseProxy) fun _ => .nil
  · exact .ite (fun _ => .append (.singleton .singleton) (.singleton (.note _ _))) fun _ => .nil
  · exact .ite (fun _ => .singleton (.note _ _)) fun _ => .nil

theorem allPlanned_methodPlan (hc : c.Valid) {i : Nat} {m : Method} (hm : c.methods[i]? = some m)
    (proxied : Bool) : c.AllPlanned x (plannedEffects (methodPlan x c proxied i m)) := by
  obtain ⟨t, ht⟩ := Bearer.exists_traits (b := m.bearer .method c.path x.isEnum)
    (hc.methods m (List.mem_of_getElem? hm))
  obtain ⟨es, hes⟩ : ∃ es, methodPlan x c proxied i m = .ok es := by
    unfold methodPlan
    rw [ht]
    exact ⟨_, rfl⟩
  rw [hes]
  obtain ⟨_, _, hes⟩ := bind_eq_ok.mp hes
  obtain rfl := pure_eq_ok.mp hes
  refine .append (.append (.append ?_ ?_) ?_) ?_
  · exact .singleton (.annotate _ _)
  · exact .ite (fun _ => .singleton (.proxy hm)) fun _ => .nil
  · exact .ite (fun _ => .singleton (.note _ _)) fun _ => .nil
  · exact .ite (fun _ => .singleton (.note _ _)) fun _ => .nil

theorem allPlanned_accessorPlan {i : Nat} {f : Field} (hf : c.fields[i]? = some f) (role : AccessorRole)
    (hasProperty : Bool) (d : MethodDraft) (notes : List DocNote) :
    c.AllPlanned x (accessorPlan c i f role hasProperty d notes) := by
  unfold accessorPlan
  intro e he
  rcases List.mem_append.mp he with he | he
  · refine (AllPlanned.append ?_ ?_ e he).mono (List.subset_append_left _ _)
    · exact .singleton (.accessor hf role d)
    · exact .map fun n _ => .note _ n
  · split at he
    · obtain rfl := List.mem_singleton.mp he
      exact .bind role hf (by simp)
    · exact absurd he List.not_mem_nil

theorem allPlanned_flagAccessorPlan {i : Nat} {f : Field} (hf : c.fields[i]? = some f) {name : String}
    {e : Enumeration} (he : x.enumNamed name = some e) {y : Enumerator} (hy : y ∈ e.enumerators)
    (onChange : String) {as : List FlagAccessor} (has : ∀ a ∈ as, ':' ∉ a.role.toList) :
    c.AllPlanned x (flagAccessorPlan c i f e onChange y as) := by
  refine .flatMap fun a ha => ?_
  intro g hg
  rcases List.mem_cons.mp hg with rfl | hg
  · exact .flagAccessor hf he hy (has a ha) _
  · obtain rfl := List.mem_singleton.mp hg
    exact .attach _ List.mem_cons_self

theorem not_mem_role_of_mem_pair {direct : FlagAccessor} {opposite : String → FlagAccessor}
    {fallback : Option FlagAccessor} {y : Enumerator} {a : FlagAccessor}
    (ha : a ∈ FlagAccessor.pair direct opposite fallback y) (hdirect : ':' ∉ direct.role.toList)
    (hopposite : ':' ∉ (opposite y.opposite).role.toList)
    (hfallback : ∀ b, fallback = some b → ':' ∉ b.role.toList) : ':' ∉ a.role.toList := by
  rcases List.mem_cons.mp ha with rfl | ha
  · exact hdirect
  · split at ha
    · exact hfallback a (Option.mem_toList.mp ha)
    · exact List.mem_singleton.mp ha ▸ hopposite

/-- The role of an accessor holds no colon, whatever its verb is. -/
theorem not_mem_role (nots : Bool) {n : NameParts} {y : Enumerator} {a : FlagAccessor}
    (ha : a ∈ FlagAccessor.tests n nots y ∨ a ∈ FlagAccessor.setters n nots y ∨ a ∈ FlagAccessor.unsetters n y ∨
      a ∈ FlagAccessor.togglers n y) : ':' ∉ a.role.toList := by
  have hfallback : ∀ b c : FlagAccessor, (if nots then some b else none) = some c → b = c := by
    intro b c h
    cases nots with
    | true => exact Option.some.inj h
    | false => cases h
  rcases ha with ha | ha | ha | ha
  · exact not_mem_role_of_mem_pair ha (by simp) (by simp) fun b hb => hfallback _ b hb ▸ by simp
  · exact not_mem_role_of_mem_pair ha (by simp) (by simp) fun b hb => hfallback _ b hb ▸ by simp
  · exact not_mem_role_of_mem_pair ha (by simp) (by simp) fun b hb => absurd hb (by simp)
  · exact not_mem_role_of_mem_pair ha (by simp) (by simp) fun b hb => absurd hb (by simp)

theorem allPlanned_writing {n : Int} {e : Effect} (he : c.AllPlanned x [e]) : c.AllPlanned x [writing n e] := by
  rcases writing_eq_or n e with h | h
  · rw [h]
    exact he
  · rw [h]
    exact .singleton (.fail .overlong (.inr rfl))

theorem allPlanned_flagAssertions (f : Field) (e : Enumeration) : c.AllPlanned x (flagAssertions f e) := by
  refine @AllPlanned.append _ _ [_] _ (.singleton (.addToBody _)) ?_
  split
  · exact .nil
  · exact allPlanned_writing (.singleton (.addToBody _))

theorem allPlanned_flagFieldPlan {i : Nat} {f : Field} (hf : c.fields[i]? = some f) {name : String}
    {u : FlagUse} (he : x.enumNamed name = some u.enumeration) (onChange : String) :
    c.AllPlanned x (flagFieldPlan x c i f onChange u) := by
  have heach : ∀ accessors : Enumerator → List FlagAccessor,
      (∀ y, ∀ a ∈ accessors y, ':' ∉ a.role.toList) →
      c.AllPlanned x (u.enumeration.enumerators.flatMap fun y =>
        flagAccessorPlan c i f u.enumeration onChange y (accessors y)) :=
    fun accessors hroles => .flatMap fun y hy => allPlanned_flagAccessorPlan hf he hy onChange (hroles y)
  unfold flagFieldPlan
  refine .append (.append (.append ?_ ?_) ?_) ?_
  · exact .singleton (.note _ _)
  · exact allPlanned_flagAssertions f u.enumeration
  · exact .ite (fun _ => .nil) fun _ => .append (.singleton (.note _ _)) (.singleton (.warn _ _))
  · split
    · exact allPlanned_writing (.singleton (.fail (.outOfRange _ _ _) (.inl ⟨f, List.mem_of_getElem? hf, rfl⟩)))
    · refine .append (.flatMap fun y hy => ?_) (.ite (fun _ => ?_) fun _ => .nil)
      · refine .append (.singleton (.declareFlag hf he hy)) ?_
        exact allPlanned_flagAccessorPlan hf he hy onChange fun a ha => not_mem_role u.nots (.inl ha)
      · refine .append (.append ?_ ?_) ?_
        · exact heach _ fun y a ha => not_mem_role u.nots (.inr (.inl ha))
        · exact heach _ fun y a ha => not_mem_role u.nots (.inr (.inr (.inl ha)))
        · exact heach _ fun y a ha => not_mem_role u.nots (.inr (.inr (.inr ha)))

/-! ### Fields that hold flags -/

theorem lookup?_ends {b : Bearer} {a : Attribute} (ha : a ∈ Bearer.deferred)
    (hcheck : a.check = .reflectedEnum) (hb : b.isEnum = x.isEnum) :
    Ends (b.lookup? b.isEnum a) (fun o => ∀ v, o = some v → ∃ e, x.enumNamed (v.string?.getD "") = some e)
      fun f => FlagFault f.cause := by
  unfold Bearer.lookup?
  cases b.find? a with
  | none => exact nofun
  | some v =>
      dsimp only
      cases hfault : a.fault? b.isEnum b.kind v with
      | some f => exact .invalid ha f
      | none =>
          intro w hw
          obtain rfl := Option.some.inj hw
          unfold Attribute.fault? at hfault
          split at hfault
          · rw [hcheck] at hfault
            cases v with
            | str s =>
                change Check.textFault? b.isEnum .reflectedEnum s = none at hfault
                unfold Check.textFault? at hfault
                split at hfault
                · cases hfault
                · dsimp only at hfault
                  split at hfault
                  · rename_i henum
                    rw [hb] at henum
                    exact Option.isSome_iff_exists.mp henum
                  · cases hfault
            | null | bool | int | float | array | object => cases hfault
          · cases hfault

theorem exists_namedFlagUse {f : Field} {v : Value} {e : Enumeration}
    (he : x.enumNamed (v.string?.getD "") = some e) (writes nots : Bool) :
    ∃ u, namedFlagUse x c f v writes nots = .ok u ∧ u.enumeration = e := by
  refine ⟨⟨e, writes, nots⟩, ?_, rfl⟩
  unfold namedFlagUse
  dsimp only
  rw [he]

/-- How a field holds flags names a reflected enum; what can go wrong is that the attributes for it have
wrong values or are both present. -/
theorem flagUse?_ends (hc : c.Valid) {f : Field} (hf : f ∈ c.fields) :
    Ends (flagUse? x c f)
      (fun o => ∀ u, o = some u → ∃ name, x.enumNamed name = some u.enumeration)
      fun e => FlagFault e.cause := by
  obtain ⟨nots, hnots⟩ := Bearer.exists_bool (b := f.bearer .field c.path x.isEnum) (hc.fields f hf)
    (a := .flagNots) (by simp [Attribute.known]) nofun
  have hnamed : ∀ {v : Value} (writes nots : Bool), (∃ e, x.enumNamed (v.string?.getD "") = some e) →
      Ends (do return some (← namedFlagUse x c f v writes nots) : Checked (Option FlagUse))
        (fun o => ∀ u, o = some u → ∃ name, x.enumNamed name = some u.enumeration)
        fun e => FlagFault e.cause := by
    rintro v writes nots ⟨e, he⟩
    obtain ⟨u, hu, rfl⟩ := exists_namedFlagUse (c := c) (f := f) he writes nots
    rw [hu]
    intro w hw
    exact Option.some.inj hw ▸ ⟨_, he⟩
  unfold flagUse?
  dsimp only
  refine .bind (lookup?_ends (by simp [Bearer.deferred]) rfl rfl) fun readable hreadable => ?_
  refine .bind (lookup?_ends (by simp [Bearer.deferred]) rfl rfl) fun writable hwritable => ?_
  refine .bind (.of_ok hnots trivial) fun nots (_ : True) => ?_
  cases readable with
  | none =>
      cases writable with
      | none => exact .pure fun u hu => absurd hu.symm (Option.some_ne_none u)
      | some v => exact hnamed true nots (hwritable v rfl)
  | some v =>
      cases writable with
      | none => exact hnamed false false (hreadable v rfl)
      | some w => exact .throw .exclusive

theorem flagUse?_place (f : Field) :
    Ends (flagUse? x c f) (fun _ => True) fun e => e = c.fieldFault f e.cause := by
  have hlookup : ∀ a, Ends ((f.bearer .field c.path x.isEnum).lookup? x.isEnum a) (fun _ => True)
      fun e => e = c.fieldFault f e.cause := by
    intro a
    unfold Bearer.lookup?
    split
    · exact trivial
    · split
      · exact trivial
      · exact rfl
  have hnamed : ∀ (v : Value) (writes nots : Bool),
      Ends (do return some (← namedFlagUse x c f v writes nots) : Checked (Option FlagUse)) (fun _ => True)
        fun e => e = c.fieldFault f e.cause := by
    intro v writes nots
    unfold namedFlagUse
    dsimp only
    split
    · exact rfl
    · exact trivial
  unfold flagUse?
  refine .bind (hlookup .flagGetters) fun readable _ => .bind (hlookup .flags) fun writable _ => ?_
  refine .bind (((hlookup .flagNots).map fun _ h => h).map fun _ h => h) fun nots (_ : True) => ?_
  cases readable with
  | none =>
      cases writable with
      | none => exact .pure trivial
      | some v => exact hnamed v true nots
  | some v =>
      cases writable with
      | none => exact hnamed v false false
      | some w => exact .throw rfl

theorem allPlanned_flagPlan (hc : c.Valid) {i : Nat} {f : Field} (hf : c.fields[i]? = some f)
    (onChange : String) : c.AllPlanned x (plannedEffects (flagPlan x c i f onChange)) := by
  have hends := flagUse?_ends (x := x) hc (List.mem_of_getElem? hf)
  unfold flagPlan
  cases huse : flagUse? x c f with
  | error e =>
      rw [huse] at hends
      exact .singleton (.fail hends (.inl ⟨f, List.mem_of_getElem? hf, (flagUse?_place f).of_error huse⟩))
  | ok o =>
      rw [huse] at hends
      cases o with
      | none => exact .nil
      | some u =>
          obtain ⟨name, he⟩ := hends u rfl
          exact allPlanned_flagFieldPlan hf he onChange

theorem allPlanned_fieldPlan (hc : c.Valid) {i : Nat} {f : Field} (hf : c.fields[i]? = some f) :
    c.AllPlanned x (plannedEffects (fieldPlan x c i f)) := by
  have hvalid := hc.fields f (List.mem_of_getElem? hf)
  obtain ⟨t, ht⟩ := Bearer.exists_traits (b := f.bearer .field c.path x.isEnum) hvalid
  obtain ⟨choice, hchoice⟩ := Bearer.exists_bool? (b := f.bearer .field c.path x.isEnum) hvalid
    (a := .propertyName) (by simp [Attribute.known]) nofun
  obtain ⟨code, hcode⟩ := Bearer.exists_string? (b := f.bearer .field c.path x.isEnum) hvalid
    (a := .onChange) (by simp [Attribute.known]) nofun
  obtain ⟨es, hes⟩ : ∃ es, fieldPlan x c i f = .ok es := by
    unfold fieldPlan
    dsimp only
    rw [ht, hchoice, hcode]
    exact ⟨_, rfl⟩
  rw [hes]
  obtain ⟨_, _, hes⟩ := bind_eq_ok.mp hes
  obtain ⟨_, _, hes⟩ := bind_eq_ok.mp hes
  obtain ⟨_, _, hes⟩ := bind_eq_ok.mp hes
  obtain rfl := pure_eq_ok.mp hes
  refine .append (.append (.append (.append (.append ?_ ?_) ?_) ?_) ?_) (allPlanned_flagPlan hc hf _)
  · exact .singleton (.annotate _ _)
  · exact .ite (fun _ => .singleton (.claimProperty hf)) fun _ => .nil
  · exact .ite (fun _ => .nil) fun _ => allPlanned_accessorPlan hf .getter _ _ _
  · exact .ite (fun _ => .nil) fun _ => allPlanned_accessorPlan hf .setter _ _ _
  · exact .map fun n _ => .note _ n

/-- Every effect of a plan has one of the listed shapes. -/
theorem planned_of_mem_plan (hc : c.Valid) {h : Choices} {e : Effect} (he : e ∈ c.plan x h) :
    c.Planned x (c.plan x h) e := by
  refine AllPlanned.append (.append (allPlanned_ownerPlan h) ?_) ?_ e he
  · exact .flatMap fun p hp => allPlanned_methodPlan hc (List.mk_mem_zipIdx_iff_getElem?.mp hp) _
  · exact .flatMap fun p hp => allPlanned_fieldPlan hc (List.mk_mem_zipIdx_iff_getElem?.mp hp)

end Class

end HeaderReflection
