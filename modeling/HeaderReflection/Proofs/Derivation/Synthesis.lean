import HeaderReflection.Derivation.Outcome
import HeaderReflection.Proofs.Derivation.Work
import HeaderReflection.Proofs.Source.Characters
import HeaderReflection.Proofs.Source.Declared

/-! # The methods that deriving a class makes

Which methods are made follows from the attributes and flags of a class and of its members: the getter of the
one object of a singleton, the proxies of methods, the accessors of fields, and the methods for flags, in this
order for the kinds and field by field (`Class.synthesizedMethods`).

* A plan has effects of many other kinds between those that make methods.  Taking only the methods, a plan
  makes just the synthesized ones (`Class.filterMap_plan`).
* Each of them is made from the class or from one of its members, is artificial and public, has a body, and
  has nothing made from it (`Class.Makes`).  This is shown kind by kind (`Class.isSynthesized_of_mem`).
* A class of a header that is derived without a fault has its declared methods as the header states them,
  behind them the made ones, and each of the latter is registered once, with the declaration that it is made
  from (`Class.derive_methods_exact`).

The definitions here follow the attributes and not the plan, so that they can be read without it. -/

namespace HeaderReflection

open Checked

namespace Class

variable (x : PlanContext) (c : Class)

/-! ### Which methods are made -/

/-- The method that answers the instance of a singleton. -/
def singletonMethod : Method :=
  c.synthesize ⟨.owner, "SingletonGetter", c.line⟩ (singletonDraft x c)

/-- The proxy of a method. -/
def proxyMethod (i : Nat) (m : Method) : Method :=
  c.synthesize ⟨.method i, "Proxy", m.line⟩ (proxyDraft x c m)

/-- The proxies of the methods that can be overridden, in the order of the methods. -/
def proxies : List Method :=
  (c.methods.zipIdx.filter (isOverridable ·.1)).map fun p => proxyMethod x c p.2 p.1

/-- The getter of a field. -/
def getterMethod (i : Nat) (f : Field) : Method :=
  c.synthesize ⟨.field i, "Getter", f.line⟩ (getterDraft x f)

/-- The setter of a field. -/
def setterMethod (i : Nat) (f : Field) (onChange : String) : Method :=
  c.synthesize ⟨.field i, "Setter", f.line⟩ (setterDraft x f onChange)

/-- The method that reads or writes a flag in a field. -/
def flagMethod (i : Nat) (f : Field) (onChange : String) (e : Enumeration) (y : Enumerator)
    (a : FlagAccessor) : Method :=
  c.synthesize ⟨.field i, a.roleFor e y, f.line⟩ (a.draft f y onChange)

/-- The methods for the flags in a field: for each enumerator those that test it, and if flags are
written, for each enumerator those that set it, then those that unset it, then those that toggle it. -/
def flagMethods (i : Nat) (f : Field) (onChange : String) (u : FlagUse) : List Method :=
  let n := x.settings.names
  let each (accessors : Enumerator → List FlagAccessor) : List Method :=
    u.enumeration.enumerators.flatMap fun y =>
      (accessors y).map (flagMethod c i f onChange u.enumeration y)
  each (FlagAccessor.tests n u.nots) ++
    if u.writes then
      each (FlagAccessor.setters n u.nots) ++ each (FlagAccessor.unsetters n) ++
        each (FlagAccessor.togglers n)
    else []

/-- The methods made from a field: its getter and its setter unless it has none, and the methods for its
flags. -/
def fieldMethods (i : Nat) (f : Field) : Checked (List Method) := do
  let onChange := (← (f.bearer .field c.path x.isEnum).string? .onChange).getD ""
  let flags ← c.flagUse? x f
  return (if f.flags.has .noGetter then [] else [getterMethod x c i f]) ++
    (if f.flags.has .noSetter then [] else [setterMethod x c i f onChange]) ++
    flags.toList.flatMap (flagMethods x c i f onChange)

/-- The methods that deriving a class makes, in their order. -/
def synthesizedMethods : Checked (List Method) := do
  let b := c.bearer .classType c.path x.isEnum
  let isSingleton ← b.bool .singleton
  let createsProxy ← b.bool .createProxy
  let ofFields ← c.fields.zipIdx.mapM fun p => fieldMethods x c p.2 p.1
  return (if isSingleton then [singletonMethod x c] else []) ++
    (if createsProxy then proxies x c else []) ++ ofFields.flatten

/-! ### What a plan makes -/

theorem filterMap_notes (o : Origin) (ns : List DocNote) :
    (ns.map (Effect.note o)).filterMap (Effect.made? c) = [] := by
  rw [List.filterMap_map, List.filterMap_eq_nil_iff]
  intro n _
  rfl

theorem filterMap_ownerPlan (h : Choices) :
    (ownerPlan x c h).filterMap (Effect.made? c) =
      if h.isSingleton then [singletonMethod x c] else [] := by
  unfold ownerPlan
  simp only [List.filterMap_append, apply_ite (List.filterMap (Effect.made? c)), List.filterMap_cons,
    List.filterMap_nil, Effect.made?, ite_self, List.nil_append, List.append_nil]
  rfl

theorem filterMap_methodPlan {proxied : Bool} {i : Nat} {m : Method} {es : List Effect}
    (h : c.methodPlan x proxied i m = .ok es) :
    es.filterMap (Effect.made? c) =
      if proxied && isOverridable m then [proxyMethod x c i m] else [] := by
  obtain ⟨traits, _, h⟩ := bind_eq_ok.mp h
  obtain rfl := pure_eq_ok.mp h
  simp only [List.filterMap_append, apply_ite (List.filterMap (Effect.made? c)), List.filterMap_cons,
    List.filterMap_nil, Effect.made?, ite_self, List.nil_append, List.append_nil]
  rfl

theorem filterMap_accessorPlan (i : Nat) (f : Field) (role : AccessorRole) (hasProperty : Bool)
    (d : MethodDraft) (notes : List DocNote) :
    (accessorPlan c i f role hasProperty d notes).filterMap (Effect.made? c) =
      [c.synthesize ⟨.field i, role.label, f.line⟩ d] := by
  unfold accessorPlan
  simp only [List.filterMap_append, apply_ite (List.filterMap (Effect.made? c)), filterMap_notes, List.filterMap_cons,
    List.filterMap_nil, Effect.made?, ite_self, List.append_nil]

theorem filterMap_flagAccessorPlan (i : Nat) (f : Field) (e : Enumeration) (onChange : String)
    (y : Enumerator) (as : List FlagAccessor) :
    (flagAccessorPlan c i f e onChange y as).filterMap (Effect.made? c) =
      as.map (flagMethod c i f onChange e y) := by
  unfold flagAccessorPlan
  rw [List.filterMap_flatMap]
  induction as with
  | nil => rfl
  | cons a as ih => rw [List.flatMap_cons, ih, List.map_cons]; rfl

theorem made?_writing {n : Int} {e : Effect} (he : e.made? c = none) : (writing n e).made? c = none := by
  rcases writing_eq_or n e with h | h
  · rw [h, he]
  · rw [h]
    rfl

theorem filterMap_flagAssertions (f : Field) (e : Enumeration) :
    (flagAssertions f e).filterMap (Effect.made? c) = [] := by
  unfold flagAssertions
  split
  · rfl
  · rw [List.filterMap_cons_none rfl, List.filterMap_cons_none (made?_writing c rfl), List.filterMap_nil]

/-- The flags of a field get their methods, unless a value is no bit. -/
theorem filterMap_flagFieldPlan {i : Nat} {f : Field} {onChange : String} {u : FlagUse}
    (hfail : ∀ e, .fail e ∉ flagFieldPlan x c i f onChange u) :
    (flagFieldPlan x c i f onChange u).filterMap (Effect.made? c) = flagMethods x c i f onChange u := by
  unfold flagFieldPlan at hfail ⊢
  cases hbit : u.enumeration.enumerators.find? (isNoBit ·.value) with
  | some y =>
      obtain ⟨g, hg⟩ := exists_writing_fail y.value
        (c.fieldFault f (.flagOutOfRange y.name u.enumeration.fullType y.value))
      simp only [hbit, hg] at hfail
      exact absurd (List.mem_append_right _ List.mem_cons_self) (hfail g)
  | none =>
      simp only [hbit, List.filterMap_append, apply_ite (List.filterMap (Effect.made? c)), List.filterMap_cons,
        List.filterMap_nil, Effect.made?, List.filterMap_flatMap, filterMap_flagAccessorPlan, filterMap_flagAssertions,
        ite_self]
      rfl

theorem plannedEffects_ok (es : List Effect) : plannedEffects (.ok es) = es := rfl

theorem exists_of_plannedEffects {y : Checked (List Effect)}
    (hfail : ∀ e, .fail e ∉ plannedEffects y) : ∃ es, y = .ok es := by
  cases y with
  | ok es => exact ⟨es, rfl⟩
  | error e => exact absurd List.mem_cons_self (hfail e)

theorem filterMap_flagPlan {i : Nat} {f : Field} {onChange : String}
    (hfail : ∀ e, .fail e ∉ plannedEffects (flagPlan x c i f onChange)) :
    ∃ o, c.flagUse? x f = .ok o ∧
      (plannedEffects (flagPlan x c i f onChange)).filterMap (Effect.made? c) =
        o.toList.flatMap (flagMethods x c i f onChange) := by
  obtain ⟨es, hplan⟩ := exists_of_plannedEffects hfail
  rw [hplan] at hfail ⊢
  obtain ⟨o, ho, hes⟩ := bind_eq_ok.mp hplan
  refine ⟨o, ho, ?_⟩
  cases o with
  | none =>
      obtain rfl := pure_eq_ok.mp hes
      rfl
  | some u =>
      obtain rfl := pure_eq_ok.mp hes
      exact (filterMap_flagFieldPlan x c hfail).trans (List.append_nil _).symm

theorem filterMap_fieldPlan {i : Nat} {f : Field}
    (hfail : ∀ e, .fail e ∉ plannedEffects (fieldPlan x c i f)) :
    fieldMethods x c i f = .ok ((plannedEffects (fieldPlan x c i f)).filterMap (Effect.made? c)) := by
  obtain ⟨es, hplan⟩ := exists_of_plannedEffects hfail
  rw [hplan] at hfail ⊢
  obtain ⟨traits, _, hplan⟩ := bind_eq_ok.mp hplan
  obtain ⟨property, _, hplan⟩ := bind_eq_ok.mp hplan
  obtain ⟨onChange, honChange, hplan⟩ := bind_eq_ok.mp hplan
  obtain rfl := pure_eq_ok.mp hplan
  obtain ⟨o, ho, hflags⟩ := filterMap_flagPlan x c
    fun e he => hfail e (List.mem_append_right _ he)
  unfold fieldMethods
  rw [honChange, ho]
  refine congrArg Except.ok ?_
  simp only [plannedEffects_ok, List.filterMap_append, filterMap_notes, filterMap_accessorPlan,
    apply_ite (List.filterMap (Effect.made? c)), List.filterMap_cons, List.filterMap_nil, Effect.made?,
    ite_self, List.nil_append, List.append_nil, hflags]
  rfl


theorem flatMap_ite_singleton {α β : Type} (p : α → Bool) (f : α → β) (l : List α) :
    (l.flatMap fun a => if p a then [f a] else []) = (l.filter p).map f := by
  induction l with
  | nil => rfl
  | cons a l ih =>
      rw [List.flatMap_cons, ih]
      cases hp : p a with
      | true => simp [hp]
      | false => simp [hp]

/-- A class that has no proxy from the start gets proxies of its methods if it is to have one. -/
theorem filterMap_methodPlans {h : Choices} (hproxy : c.flags.has .hasProxy = false)
    (hfail : ∀ e, .fail e ∉ c.methods.zipIdx.flatMap fun p =>
      plannedEffects (methodPlan x c
        (c.flags.has .hasProxy || (c.methods.any isOverridable && h.createsProxy)) p.2 p.1)) :
    (c.methods.zipIdx.flatMap fun p =>
        plannedEffects (methodPlan x c
          (c.flags.has .hasProxy || (c.methods.any isOverridable && h.createsProxy)) p.2 p.1)).filterMap
        (Effect.made? c) =
      if h.createsProxy then proxies x c else [] := by
  rw [hproxy, Bool.false_or] at hfail ⊢
  rw [List.filterMap_flatMap]
  have heach : ∀ p ∈ c.methods.zipIdx,
      (plannedEffects (methodPlan x c (c.methods.any isOverridable && h.createsProxy) p.2
        p.1)).filterMap (Effect.made? c) =
      if h.createsProxy && isOverridable p.1 then [proxyMethod x c p.2 p.1] else [] := by
    intro p hp
    obtain ⟨es, hplan⟩ := exists_of_plannedEffects
      fun e he => hfail e (List.mem_flatMap.mpr ⟨p, hp, he⟩)
    rw [hplan, plannedEffects_ok, filterMap_methodPlan x c hplan]
    cases hover : isOverridable p.1 with
    | false => simp
    | true =>
        have hany : c.methods.any isOverridable = true :=
          List.any_eq_true.mpr ⟨p.1, List.fst_mem_of_mem_zipIdx hp, hover⟩
        rw [hany, Bool.true_and]
  rw [List.flatMap_congr heach]
  cases h.createsProxy with
  | true => exact flatMap_ite_singleton _ _ c.methods.zipIdx
  | false => simp

/-- The plan of a class without a failure makes the methods that its attributes and flags ask for. -/
theorem filterMap_plan {h : Choices} (hproxy : c.flags.has .hasProxy = false)
    (hchoices : c.choices x = .ok h) (hfail : ∀ e, .fail e ∉ c.plan x h) :
    c.synthesizedMethods x = .ok ((c.plan x h).filterMap (Effect.made? c)) := by
  obtain ⟨traits, _, hchoices⟩ := bind_eq_ok.mp hchoices
  obtain ⟨createsProxy, hcreates, hchoices⟩ := bind_eq_ok.mp hchoices
  obtain ⟨isSingleton, hsingleton, hchoices⟩ := bind_eq_ok.mp hchoices
  obtain ⟨isAbstract, _, hchoices⟩ := bind_eq_ok.mp hchoices
  obtain rfl := pure_eq_ok.mp hchoices
  unfold plan at hfail ⊢
  have hmethods := filterMap_methodPlans x c (h := ⟨traits, createsProxy, isSingleton, isAbstract⟩)
    hproxy fun e he => hfail e (List.mem_append_left _ (List.mem_append_right _ he))
  have hfields : ∀ p ∈ c.fields.zipIdx, fieldMethods x c p.2 p.1 =
      .ok ((plannedEffects (fieldPlan x c p.2 p.1)).filterMap (Effect.made? c)) := fun p hp =>
    filterMap_fieldPlan x c fun e he =>
      hfail e (List.mem_append_right _ (List.mem_flatMap.mpr ⟨p, hp, he⟩))
  unfold synthesizedMethods
  dsimp only
  rw [hsingleton, hcreates, List.filterMap_append, List.filterMap_append, filterMap_ownerPlan]
  simp only [mapM_eq_ok hfields, hmethods]
  rw [List.filterMap_flatMap, List.flatMap_def]
  rfl

/-! ### What the methods are like -/

/-- The methods that deriving a class makes: its instance getter, the proxies of the methods that can be overridden,
and for a field its accessors and those of its flags. -/
inductive IsSynthesized : Method → Prop
  | singleton : IsSynthesized (singletonMethod x c)
  | proxy {i : Nat} {m : Method} (hm : c.methods[i]? = some m) (hover : isOverridable m = true) :
      IsSynthesized (proxyMethod x c i m)
  | getter {i : Nat} {f : Field} (hf : c.fields[i]? = some f) : IsSynthesized (getterMethod x c i f)
  | setter {i : Nat} {f : Field} (hf : c.fields[i]? = some f) (onChange : String) :
      IsSynthesized (setterMethod x c i f onChange)
  | flag {i : Nat} {f : Field} (hf : c.fields[i]? = some f) (onChange : String) (e : Enumeration) (y : Enumerator)
      (a : FlagAccessor) : IsSynthesized (flagMethod c i f onChange e y a)

theorem exists_accessor_of_mem_flagMethods {i : Nat} {f : Field} {onChange : String} {u : FlagUse} {m : Method}
    (hm : m ∈ flagMethods x c i f onChange u) : ∃ y a, m = flagMethod c i f onChange u.enumeration y a := by
  have heach : ∀ (accessors : Enumerator → List FlagAccessor),
      m ∈ (u.enumeration.enumerators.flatMap fun y =>
        (accessors y).map (flagMethod c i f onChange u.enumeration y)) →
      ∃ y a, m = flagMethod c i f onChange u.enumeration y a := by
    intro accessors hm
    obtain ⟨y, _, hm⟩ := List.mem_flatMap.mp hm
    obtain ⟨a, _, rfl⟩ := List.mem_map.mp hm
    exact ⟨y, a, rfl⟩
  unfold flagMethods at hm
  rcases List.mem_append.mp hm with hm | hm
  · exact heach _ hm
  · split at hm
    · rcases List.mem_append.mp hm with hm | hm
      · rcases List.mem_append.mp hm with hm | hm
        · exact heach _ hm
        · exact heach _ hm
      · exact heach _ hm
    · exact absurd hm List.not_mem_nil

theorem isSynthesized_of_mem_fieldMethods {i : Nat} {f : Field} (hf : c.fields[i]? = some f) :
    Yields (fieldMethods x c i f) fun ms => ∀ m ∈ ms, IsSynthesized x c m := by
  refine .bind (.any _) fun onChange _ => .bind (.any _) fun flags _ => .pure ?_
  intro m hm
  rcases List.mem_append.mp hm with hm | hm
  · rcases List.mem_append.mp hm with hm | hm
    · split at hm
      · exact absurd hm List.not_mem_nil
      · exact List.mem_singleton.mp hm ▸ .getter hf
    · split at hm
      · exact absurd hm List.not_mem_nil
      · exact List.mem_singleton.mp hm ▸ .setter hf _
  · obtain ⟨u, _, hm⟩ := List.mem_flatMap.mp hm
    obtain ⟨y, a, rfl⟩ := exists_accessor_of_mem_flagMethods x c hm
    exact .flag hf _ u.enumeration y a

/-- What is proved for each kind of made method holds of all methods that deriving a class makes. -/
theorem isSynthesized_of_mem : Yields (c.synthesizedMethods x) fun ms => ∀ m ∈ ms, IsSynthesized x c m := by
  refine .bind (.any _) fun isSingleton _ => .bind (.any _) fun createsProxy _ => ?_
  refine .bind (.mapM fun p hp => isSynthesized_of_mem_fieldMethods x c ?_) fun ofFields hfields => .pure ?_
  · exact List.mk_mem_zipIdx_iff_getElem?.mp hp
  · intro m hm
    rcases List.mem_append.mp hm with hm | hm
    · rcases List.mem_append.mp hm with hm | hm
      · split at hm
        · exact List.mem_singleton.mp hm ▸ .singleton
        · exact absurd hm List.not_mem_nil
      · split at hm
        · obtain ⟨p, hp, rfl⟩ := List.mem_map.mp hm
          obtain ⟨hmem, hover⟩ := List.mem_filter.mp hp
          exact .proxy (List.mk_mem_zipIdx_iff_getElem?.mp hmem) hover
        · exact absurd hm List.not_mem_nil
    · obtain ⟨ms, hms, hm⟩ := List.mem_flatten.mp hm
      exact hfields ms hms m hm

/-! ### Methods that are made -/

/-- The method is made from the class or from one of its members, has a body, and is hidden from scripts
just when the field is that it is made from. -/
def Makes (m : Method) : Prop :=
  ∃ s d, m = c.synthesize s d ∧ c.HasOrigin s.origin ∧ d.body.isEmpty = false ∧
    ∀ i f, s.origin = .field i → c.fields[i]? = some f →
      d.flags.has .noScript = f.flags.has .noScript

namespace Makes

variable {c}
variable {m : Method}

theorem artificial (h : c.Makes m) : m.flags.has .artificial = true := by
  obtain ⟨s, d, rfl, -⟩ := h
  simp [synthesize]

theorem hasBody (h : c.Makes m) : m.flags.has .hasBody = true := by
  obtain ⟨s, d, rfl, -, hbody, -⟩ := h
  simp [synthesize, hbody]

theorem access (h : c.Makes m) : m.access = .everyone := by
  obtain ⟨s, d, rfl, -⟩ := h
  rfl

theorem unmade (h : c.Makes m) : m.synthesized = [] := by
  obtain ⟨s, d, rfl, -⟩ := h
  rfl

theorem noteOtherName (h : c.Makes m) : m.noteOtherName = m := by
  obtain ⟨s, d, rfl, -⟩ := h
  exact Method.noteOtherName_of_none rfl

theorem noScript (h : c.Makes m) {i : Nat} {role : String} {f : Field}
    (hkey : m.key? = some (.field i, role)) (hf : c.fields[i]? = some f) :
    m.flags.has .noScript = f.flags.has .noScript := by
  obtain ⟨s, d, rfl, -, -, hscript⟩ := h
  have horigin : s.origin = .field i := (Prod.mk.inj (Option.some.inj hkey)).1
  rw [← hscript i f horigin hf]
  simp [synthesize]

end Makes

/-- A method that is made from a field. -/
theorem makes_of_field {i : Nat} {f : Field} (hf : c.fields[i]? = some f) {role : String}
    {d : MethodDraft} (hbody : d.body.isEmpty = false)
    (hscript : d.flags.has .noScript = f.flags.has .noScript) :
    c.Makes (c.synthesize ⟨.field i, role, f.line⟩ d) := by
  refine ⟨_, d, rfl, ?_, hbody, ?_⟩
  · simp [HasOrigin, origin?, hf]
  · rintro j g heq hg
    obtain rfl : i = j := by simpa using heq
    rw [hscript, Option.some.inj (hf.symm.trans hg)]

theorem makes_singletonMethod : c.Makes (singletonMethod x c) :=
  ⟨_, _, rfl, rfl, rfl, fun _ _ h => absurd h nofun⟩

theorem makes_proxyMethod {i : Nat} {m : Method} (hm : c.methods[i]? = some m) :
    c.Makes (proxyMethod x c i m) := by
  refine ⟨_, _, rfl, ?_, ?_, fun _ _ h => absurd h nofun⟩
  · simp [HasOrigin, origin?, hm]
  · unfold proxyDraft
    dsimp only
    split
    · simp
    · simp

theorem makes_getterMethod {i : Nat} {f : Field} (hf : c.fields[i]? = some f) :
    c.Makes (getterMethod x c i f) := by
  refine makes_of_field c hf ?_ ?_
  · exact isEmpty_append (isEmpty_append rfl _) _
  · cases hs : f.flags.has .static with
    | true => simp [getterDraft, FlagSet.ofList, hs]
    | false => simp [getterDraft, FlagSet.ofList, hs]

theorem makes_setterMethod {i : Nat} {f : Field} (hf : c.fields[i]? = some f) (onChange : String) :
    c.Makes (setterMethod x c i f onChange) := by
  refine makes_of_field c hf (isEmpty_withOnChange ?_ onChange) ?_
  · simp
  · simp [setterDraft, FlagSet.ofList]

theorem makes_flagMethod {i : Nat} {f : Field} (hf : c.fields[i]? = some f) (onChange : String)
    (e : Enumeration) (y : Enumerator) (a : FlagAccessor) : c.Makes (flagMethod c i f onChange e y a) := by
  have hstatement := BitOp.isEmpty_statement f.name (FlagAccessor.bitLiteral f.type y.value.toNat) a.op
  refine makes_of_field c hf ?_ ?_
  · unfold FlagAccessor.draft
    dsimp only
    split
    · exact isEmpty_withOnChange hstatement onChange
    · exact hstatement
  · have hflags : a.op.flags.has .noScript = false := by
      cases a.op
      all_goals rfl
    simp [FlagAccessor.draft, hflags]

theorem synthesizedMethods_makes :
    Yields (c.synthesizedMethods x) fun ms => ∀ m ∈ ms, c.Makes m := by
  intro ms hms m hm
  cases isSynthesized_of_mem x c ms hms m hm with
  | singleton => exact makes_singletonMethod x c
  | proxy hmethod => exact makes_proxyMethod x c hmethod
  | getter hf => exact makes_getterMethod x c hf
  | setter hf onChange => exact makes_setterMethod x c hf onChange
  | flag hf onChange e y a => exact makes_flagMethod c hf onChange e y a

theorem originIn_of_makes {es : List Effect} (hes : ∀ m ∈ es.filterMap (Effect.made? c), c.Makes m) :
    ∀ e ∈ es, e.OriginIn c := by
  intro e he
  cases e with
  | synthesize s d =>
      obtain ⟨t, k, heq, ho, -, -⟩ := hes _ (List.mem_filterMap.mpr ⟨_, he, rfl⟩)
      have hst : s = t := Option.some.inj (congrArg Method.synthesis heq)
      exact hst ▸ ho
  | annotate | note | raiseProxy | claimProperty | bind | addToBody | declareFlag | attach | warn | fail =>
      trivial

end Class

/-! ### Deriving a class that was just read -/

theorem Method.stated_noteOtherName (m : Method) : m.noteOtherName.stated = m.stated := by
  obtain ⟨ns, h⟩ := m.exists_noteOtherName
  rw [h]
  rfl

namespace Class

variable {c : Class} {made : List Method}

theorem IsDeclared.registers (hc : c.IsDeclared) : c.Registers [] := by
  have hempty : ∀ o, c.madeFrom o = [] := by
    intro o
    unfold madeFrom
    cases o with
    | owner => exact hc.unmade
    | field i =>
        cases hf : c.fields[i]? with
        | none => simp [origin?, hf]
        | some f => simp [origin?, hf, hc.fields f (List.mem_of_getElem? hf)]
    | method i =>
        cases hm : c.methods[i]? with
        | none => simp [origin?, hm]
        | some m => simp [origin?, hm, (hc.methods m (List.mem_of_getElem? hm)).unmade]
  refine ⟨?_, List.nodup_nil, fun m hm => absurd hm List.not_mem_nil, ?_⟩
  · intro o
    rw [hempty o]
    exact List.nodup_nil
  · intro o p hp
    rw [hempty o] at hp
    exact absurd hp List.not_mem_nil

theorem madeFrom_withMade (hmade : ∀ m ∈ made, m.synthesized = []) (o : Origin) :
    (c.withMade made).madeFrom o = c.madeFrom o := by
  cases o with
  | owner => rfl
  | field i => rfl
  | method i =>
      have hmethods : (c.withMade made).methods = (c.methods ++ made).map Method.noteOtherName := rfl
      dsimp only [madeFrom, origin?]
      rw [hmethods, List.getElem?_map, List.getElem?_append]
      split
      · simp [Function.comp_def]
      · rename_i hi
        rw [List.getElem?_eq_none (Nat.le_of_not_lt hi)]
        cases hm : made[i - c.methods.length]? with
        | none => rfl
        | some m => simp [hmade m (List.mem_of_getElem? hm)]

/-- The methods of a class with those made, which stay as they are. -/
theorem methods_withMade {owner : Class} (hmakes : ∀ m ∈ made, c.Makes m) :
    (owner.withMade made).methods = owner.methods.map Method.noteOtherName ++ made := by
  have hmethods : (owner.withMade made).methods =
      (owner.methods ++ made).map Method.noteOtherName := rfl
  rw [hmethods, List.map_append]
  refine congrArg _ ((List.map_congr_left fun m hm => ?_).trans (List.map_id made))
  exact (hmakes m hm).noteOtherName

theorem IsDeclared.filter_artificial (hc : c.IsDeclared) {ms : List Method}
    (hms : ms.map Method.stated = c.methods.map Method.stated) :
    ms.filter (·.flags.has .artificial) = [] := by
  refine List.filter_eq_nil_iff.mpr fun m hm => ?_
  obtain ⟨k, hk, heq⟩ := List.mem_map.mp (hms ▸ List.mem_map_of_mem hm)
  have hflags : k.stated.flags = m.stated.flags := congrArg Method.flags heq
  rw [Method.flags_stated, Method.flags_stated] at hflags
  simp [← hflags, (hc.methods k hk).notArtificial]

theorem exists_field_of_stated {d : Class} (h : d.fields.map Field.stated = c.fields.map Field.stated)
    {i : Nat} {f : Field} (hf : d.fields[i]? = some f) :
    ∃ g, c.fields[i]? = some g ∧ g.flags = f.flags := by
  have hsame : (d.fields.map Field.stated)[i]? = (c.fields.map Field.stated)[i]? := by rw [h]
  rw [List.getElem?_map, hf, List.getElem?_map] at hsame
  obtain ⟨g, hg, heq⟩ := Option.map_eq_some_iff.mp hsame.symm
  have hflags : g.stated.flags = f.stated.flags := congrArg Field.flags heq
  rw [Field.flags_stated, Field.flags_stated] at hflags
  exact ⟨g, hg, hflags⟩

/-- A class of a header that is derived without a fault has its declared methods, as the header states
them, and behind them the methods that its attributes and flags ask for, in their order.  Only the latter
are artificial; they are public and have bodies, and one that is made from a field is hidden from scripts
just when the field is.  The maps of the class, its fields and its methods hold these methods and nothing
else, each of them once, under its role in the map of what it is made from. -/
theorem derive_methods_exact {r : Reader} {path : SourcePath} {text : String} {h : Header}
    (hread : r.read path text = .ok h) (hc : c ∈ h.classes) {x : PlanContext}
    (hfault : (c.derive x).fault = none) :
    let d := (c.derive x).result
    ∃ declared made, c.synthesizedMethods x = .ok made ∧ d.methods = declared ++ made ∧
      declared.map Method.stated = c.methods.map Method.stated ∧ d.artificialMethods = made ∧
      (∀ m ∈ made, m.flags.has .hasBody = true ∧ m.access = .everyone) ∧ d.Registers made ∧
      ∀ m ∈ made, ∀ i role f, m.key? = some (.field i, role) → d.fields[i]? = some f →
        m.flags.has .noScript = f.flags.has .noScript := by
  intro d
  have hdeclared := Reader.isDeclared_of_mem_read hread hc
  obtain ⟨choices, w, hchoices, hrun, -, hresult⟩ := exists_run_of_derive hfault
  have hd : d = (w.owner.withMade w.made).mapProperties Property.materialize := hresult
  -- The run made what the plan makes, which is what the class asks for.
  have hmade := filterMap_plan x c hdeclared.noProxy hchoices (ClassWork.ne_fail_of_run hrun)
  have hmakes := synthesizedMethods_makes x c _ hmade
  have hstart : ({ owner := c } : ClassWork).Sound c := ⟨rfl, rfl, rfl, hdeclared.registers⟩
  obtain ⟨hsound, hw⟩ := hstart.run (originIn_of_makes c hmakes) hrun
  rw [List.nil_append] at hw
  rw [← hw] at hmade hmakes
  have hmethods : d.methods = w.owner.methods.map Method.noteOtherName ++ w.made := by
    rw [← methods_withMade hmakes, hd]
    rfl
  have hstated : (w.owner.methods.map Method.noteOtherName).map Method.stated =
      c.methods.map Method.stated := by
    rw [← hsound.methods, List.map_map]
    exact List.map_congr_left fun m _ => m.stated_noteOtherName
  have hfields : d.fields.map Field.stated = c.fields.map Field.stated := by
    rw [← hsound.fields, hd]
    rfl
  refine ⟨w.owner.methods.map Method.noteOtherName, w.made, hmade, hmethods, hstated, ?_, ?_, ?_, ?_⟩
  · unfold artificialMethods
    rw [hmethods, List.filter_append, hdeclared.filter_artificial hstated, List.nil_append]
    exact List.filter_eq_self.mpr fun m hm => (hmakes m hm).artificial
  · intro m hm
    exact ⟨(hmakes m hm).hasBody, (hmakes m hm).access⟩
  · refine hsound.registers.congr fun o => ?_
    rw [hd]
    exact madeFrom_withMade (fun m hm => (hmakes m hm).unmade) o
  · intro m hm i role f hkey hf
    obtain ⟨g, hg, hflags⟩ := exists_field_of_stated hfields hf
    rw [(hmakes m hm).noScript hkey hg, hflags]

/-- A singleton with a field of flags and a virtual method is derived without a fault, and what is made of
it is registered. -/
theorem derive_methods_exact_singleton :
    ∃ (x : PlanContext) (h : Header) (c : Class),
      (Reader.ofSettings {}).read ⟨.relative, ["Unit.h"]⟩
          ("RClass(Singleton)\nclass Unit \x7b\nRBody();\npublic:\nRField(Flags = Color)\nint mColors;\n" ++
            "RMethod()\nvirtual void Run();\n\x7d;") = .ok h ∧
        c ∈ h.classes ∧ (c.derive x).fault = none ∧
        ∃ made, c.synthesizedMethods x = .ok made ∧ (c.derive x).result.Registers made ∧
          made.map (·.name) = ["SingletonInstance", "_proxy_Run", "GetColors", "SetColors", "IsRed",
            "SetRed", "UnsetRed", "ToggleRed"] := by
  refine ⟨⟨{}, fun _ => some { name := "Color", enumerators := [{ name := "Red" }] }⟩, ?_⟩
  have hrun : ((Reader.ofSettings {}).read ⟨.relative, ["Unit.h"]⟩
      ("RClass(Singleton)\nclass Unit \x7b\nRBody();\npublic:\nRField(Flags = Color)\nint mColors;\n" ++
        "RMethod()\nvirtual void Run();\n\x7d;")
      |>.toOption.any fun h => h.classes.any fun c =>
        let o := c.derive
          ⟨{}, fun _ => some { name := "Color", enumerators := [{ name := "Red" }] }⟩
        o.fault.isNone && o.result.artificialMethods.map (·.name) ==
          ["SingletonInstance", "_proxy_Run", "GetColors", "SetColors", "IsRed", "SetRed", "UnsetRed",
            "ToggleRed"]) = true := by
    rw [Reader.read_ofList_append]
    decide +kernel
  obtain ⟨h, hread, hrun⟩ := Checked.exists_ok_of_any hrun
  obtain ⟨c, hc, hderived⟩ := List.any_eq_true.mp hrun
  obtain ⟨hfault, hnames⟩ := Bool.and_eq_true_iff.mp hderived
  have hfault := Option.isNone_iff_eq_none.mp hfault
  obtain ⟨declared, made, hmade, -, -, hartificial, -, hregisters, -⟩ := derive_methods_exact hread hc hfault
  refine ⟨h, c, hread, hc, hfault, made, hmade, hregisters, ?_⟩
  rw [← hartificial]
  exact beq_iff_eq.mp hnames

end Class

end HeaderReflection
