import HeaderReflection.Derivation.Outcome
import Mathlib.Data.List.Basic

/-! # Each class for itself

Classes are derived one after the other, and each derivation sees the program that those before it have left.
It does not matter what these did.

* Deriving a class reads the settings, the class and the enums of the program, and of an enum no more than its
  name, its namespace, and the names, values and opposites of its enumerators (`Class.derive_bare`).  To see
  this, the plan is compared part by part with that for enums from which everything else was taken away
  (`Enumeration.bare`).
* Deriving a class changes the class and nothing else in the program (`Program.modifyClass_deriveClass`), and
  no class is among what is read of the others.
* So what becomes of a class is the same in every program with these enums, whichever other classes were
  derived before it, and whether or not that went well (`Program.deriveClass_local`).

By induction, deriving classes in any order leaves each of them as deriving it alone does
(`Program.deriveClasses_of_nodup`), which is what deriving the whole program does
(`Program.deriveClasses_range`). -/

namespace HeaderReflection

/-! ### What is read of an enum -/

/-- An enumerator with nothing but its name, value and opposite. -/
def Enumerator.bare (y : Enumerator) : Enumerator :=
  { name := y.name, value := y.value, opposite := y.opposite }

namespace Enumeration

/-- An enum with nothing but its name, its namespace and its bare enumerators. -/
def bare (e : Enumeration) : Enumeration :=
  { name := e.name, scope := e.scope, enumerators := e.enumerators.map Enumerator.bare }

variable (e : Enumeration)

@[simp] theorem name_bare : e.bare.name = e.name := rfl

@[simp] theorem fullType_bare : e.bare.fullType = e.fullType := rfl

@[simp] theorem fullName_bare (separator : String) : e.bare.fullName separator = e.fullName separator :=
  rfl

@[simp] theorem enumerators_bare : e.bare.enumerators = e.enumerators.map Enumerator.bare := rfl

@[simp] theorem values_bare : e.bare.values = e.values := by
  simp [values, Function.comp_def, Enumerator.bare]

@[simp] theorem isConsecutive_bare : e.bare.isConsecutive = e.isConsecutive := by
  simp [isConsecutive]

end Enumeration

/-- The use of the flags of a bare enum. -/
def FlagUse.bare (u : FlagUse) : FlagUse := { u with enumeration := u.enumeration.bare }

namespace Class

variable (x : PlanContext) (c : Class) (i : Nat) (f : Field) (e : Enumeration) (onChange : String)

theorem sizeAssertion_bare (bits : Int) : sizeAssertion f e.bare bits = sizeAssertion f e bits := rfl

theorem flagAssertions_bare : flagAssertions f e.bare = flagAssertions f e := by
  simp only [flagAssertions, Enumeration.values_bare, sizeAssertion_bare]

theorem gapsMessage_bare : gapsMessage e.bare = gapsMessage e := rfl

theorem flagAccessorPlan_bare (y : Enumerator) (as : List FlagAccessor) :
    flagAccessorPlan c i f e.bare onChange y.bare as = flagAccessorPlan c i f e onChange y as := rfl

theorem flagFieldPlan_bare (u : FlagUse) :
    flagFieldPlan x c i f onChange u.bare = flagFieldPlan x c i f onChange u := by
  have hpair : ∀ (g : Enumerator → List FlagAccessor), (∀ y : Enumerator, g y.bare = g y) →
      (u.enumeration.enumerators.map Enumerator.bare).flatMap
          (fun y => flagAccessorPlan c i f u.enumeration.bare onChange y (g y)) =
        u.enumeration.enumerators.flatMap fun y =>
          flagAccessorPlan c i f u.enumeration onChange y (g y) := by
    intro g hg
    rw [List.flatMap_map]
    simp only [hg, flagAccessorPlan_bare]
  have htests : ∀ y : Enumerator, FlagAccessor.tests x.settings.names u.nots y.bare =
      FlagAccessor.tests x.settings.names u.nots y := fun _ => rfl
  have hset := hpair (FlagAccessor.setters x.settings.names u.nots) fun _ => rfl
  have hunset := hpair (FlagAccessor.unsetters x.settings.names) fun _ => rfl
  have htoggle := hpair (FlagAccessor.togglers x.settings.names) fun _ => rfl
  have hbit : (u.enumeration.enumerators.map Enumerator.bare).find? (isNoBit ·.value) =
      (u.enumeration.enumerators.find? (isNoBit ·.value)).map Enumerator.bare := by
    rw [List.find?_map]
    rfl
  unfold flagFieldPlan FlagUse.bare
  simp only [Enumeration.name_bare, Enumeration.fullName_bare, Enumeration.fullType_bare,
    Enumeration.isConsecutive_bare, Enumeration.enumerators_bare, flagAssertions_bare,
    gapsMessage_bare, hset, hunset, htoggle, hbit, List.flatMap_map]
  cases u.enumeration.enumerators.find? (isNoBit ·.value) with
  | none => rfl
  | some y => rfl

end Class

/-- A context with nothing but the bare enums. -/
def PlanContext.bare (x : PlanContext) : PlanContext :=
  { x with enumNamed := fun n => (x.enumNamed n).map Enumeration.bare }

theorem PlanContext.isEnum_bare (x : PlanContext) : x.bare.isEnum = x.isEnum := by
  funext n
  exact Option.isSome_map

namespace Class

variable (x : PlanContext) (c : Class) (i : Nat)

theorem namedFlagUse_bare (f : Field) (v : Value) (writes nots : Bool) :
    c.namedFlagUse x.bare f v writes nots = (c.namedFlagUse x f v writes nots).map FlagUse.bare := by
  have hnamed : ∀ n, x.bare.enumNamed n = (x.enumNamed n).map Enumeration.bare := fun _ => rfl
  unfold namedFlagUse
  simp only [hnamed]
  cases x.enumNamed (v.string?.getD "") with
  | none => rfl
  | some e => rfl

theorem flagUse?_bare (f : Field) :
    c.flagUse? x.bare f = (c.flagUse? x f).map (Option.map FlagUse.bare) := by
  have hsome : ∀ y : Checked FlagUse,
      (some <$> y.map FlagUse.bare) = (some <$> y).map (Option.map FlagUse.bare) := by
    intro y
    cases y with
    | error e => rfl
    | ok u => rfl
  unfold flagUse?
  rw [PlanContext.isEnum_bare]
  simp only [namedFlagUse_bare, bind_pure_comp, hsome]
  generalize f.bearer .field c.path x.isEnum = b
  cases b.lookup? b.isEnum .flagGetters with
  | error e => rfl
  | ok readable =>
      cases b.lookup? b.isEnum .flags with
      | error e => rfl
      | ok writable =>
          cases b.bool .flagNots with
          | error e => rfl
          | ok nots =>
              cases readable with
              | none =>
                  cases writable with
                  | none => rfl
                  | some v => rfl
              | some v =>
                  cases writable with
                  | none => rfl
                  | some w => rfl

theorem flagPlan_bare (f : Field) (onChange : String) :
    c.flagPlan x.bare i f onChange = c.flagPlan x i f onChange := by
  unfold flagPlan
  rw [flagUse?_bare]
  cases c.flagUse? x f with
  | error e => rfl
  | ok o =>
      cases o with
      | none => rfl
      | some u => exact congrArg Except.ok (flagFieldPlan_bare x c i f onChange u)

theorem fieldPlan_bare (f : Field) : c.fieldPlan x.bare i f = c.fieldPlan x i f := by
  unfold fieldPlan
  simp only [PlanContext.isEnum_bare, flagPlan_bare]
  rfl

theorem methodPlan_bare (proxied : Bool) (m : Method) :
    c.methodPlan x.bare proxied i m = c.methodPlan x proxied i m := by
  unfold methodPlan
  rw [PlanContext.isEnum_bare]
  rfl

theorem choices_bare : c.choices x.bare = c.choices x := by
  unfold choices
  rw [PlanContext.isEnum_bare]

theorem plan_bare (h : Choices) : c.plan x.bare h = c.plan x h := by
  unfold plan
  simp only [methodPlan_bare, fieldPlan_bare]
  rfl

/-- Deriving a class reads no more of the enums than is left of the bare ones. -/
theorem derive_bare : c.derive x.bare = c.derive x := by
  unfold derive
  simp only [choices_bare, plan_bare]

end Class

/-! ### What is changed of a program -/

theorem modify_append {α : Type} (f : α → α) (i : Nat) (l₁ l₂ : List α) :
    (l₁ ++ l₂).modify i f =
      if i < l₁.length then l₁.modify i f ++ l₂ else l₁ ++ l₂.modify (i - l₁.length) f := by
  induction l₁ generalizing i with
  | nil => simp
  | cons a l ih =>
      cases i with
      | zero => simp
      | succ i =>
          simp only [List.cons_append, List.modify_succ_cons, ih, List.length_cons,
            Nat.add_lt_add_iff_right, Nat.add_sub_add_right]
          split
          · rfl
          · rfl

namespace Program

theorem classes_modifyClassIn (f : Class → Class) (i : Nat) (hs : List Header) :
    (modifyClassIn f i hs).flatMap (·.classes) = (hs.flatMap (·.classes)).modify i f := by
  induction hs generalizing i with
  | nil => simp [modifyClassIn]
  | cons h hs ih =>
      unfold modifyClassIn
      rw [List.flatMap_cons, modify_append]
      split
      · rfl
      · rw [List.flatMap_cons, ih]

theorem enums_modifyClassIn (f : Class → Class) (i : Nat) (hs : List Header) :
    (modifyClassIn f i hs).flatMap (·.enums) = hs.flatMap (·.enums) := by
  induction hs generalizing i with
  | nil => rfl
  | cons h hs ih =>
      unfold modifyClassIn
      split
      · rfl
      · rw [List.flatMap_cons, ih, List.flatMap_cons]

theorem modifyClassIn_modifyClassIn (f g : Class → Class) (i : Nat) (hs : List Header) :
    modifyClassIn g i (modifyClassIn f i hs) = modifyClassIn (g ∘ f) i hs := by
  induction hs generalizing i with
  | nil => rfl
  | cons h hs ih =>
      by_cases hi : i < h.classes.length
      · simp [modifyClassIn, hi, List.modify_modify_eq]
      · simp [modifyClassIn, hi, ih]

variable (s : Settings) (p q : Program) (i : Nat) (f : Class → Class)

@[simp] theorem classes_modifyClass : (p.modifyClass i f).classes = p.classes.modify i f :=
  classes_modifyClassIn f i p.headers

@[simp] theorem enums_modifyClass : (p.modifyClass i f).enums = p.enums :=
  enums_modifyClassIn f i p.headers

/-! ### Contexts of programs -/

theorem planContext_bare {p q : Program}
    (henums : p.enums.map Enumeration.bare = q.enums.map Enumeration.bare) :
    (p.planContext s).bare = (q.planContext s).bare := by
  have hfind : ∀ (r : Program) (n : String),
      (r.findEnum? n).map Enumeration.bare = (r.enums.map Enumeration.bare).find? (·.isNamed n) := by
    intro r n
    rw [List.find?_map]
    rfl
  unfold PlanContext.bare planContext
  simp only [hfind, henums]

/-! ### Classes one after the other -/

/-- Derives the class at a position, and puts what becomes of it in its place. -/
def deriveClass : Outcome Program :=
  match p.classes[i]? with
  | none => { result := p }
  | some c =>
    let o := c.derive (p.planContext s)
    { result := p.modifyClass i fun _ => o.result, fault := o.fault, warnings := o.warnings }

/-- Derives the classes at some positions, one after the other; a fault stops none of the others. -/
def deriveClasses : Program → List Nat → Program × List Fault × List Diagnostic
  | p, [] => (p, [], [])
  | p, i :: is =>
    let o := p.deriveClass s i
    let r := deriveClasses o.result is
    (r.1, o.fault.toList ++ r.2.1, o.warnings ++ r.2.2)

variable {s p q i}

theorem deriveClass_eq {c : Class} (hc : p.classes[i]? = some c) :
    p.deriveClass s i =
      ⟨p.modifyClass i fun _ => (c.derive (p.planContext s)).result,
        (c.derive (p.planContext s)).fault, (c.derive (p.planContext s)).warnings⟩ := by
  unfold deriveClass
  rw [hc]

theorem deriveClass_eq_of_none (hc : p.classes[i]? = none) : p.deriveClass s i = { result := p } := by
  unfold deriveClass
  rw [hc]

theorem enums_deriveClass : (p.deriveClass s i).result.enums = p.enums := by
  cases hc : p.classes[i]? with
  | none => rw [deriveClass_eq_of_none hc]
  | some c => simp [deriveClass_eq hc]

theorem classes_deriveClass_of_ne {k : Nat} (hk : k ≠ i) :
    (p.deriveClass s i).result.classes[k]? = p.classes[k]? := by
  cases hc : p.classes[i]? with
  | none => rw [deriveClass_eq_of_none hc]
  | some c => simp [deriveClass_eq hc, hk.symm]

/-- Deriving a class leaves everything else in the program as it is. -/
theorem modifyClass_deriveClass (d : Class) :
    (p.deriveClass s i).result.modifyClass i (fun _ => d) = p.modifyClass i fun _ => d := by
  cases hc : p.classes[i]? with
  | none => rw [deriveClass_eq_of_none hc]
  | some c =>
      rw [deriveClass_eq hc]
      exact congrArg Program.mk (modifyClassIn_modifyClassIn _ _ i p.headers)

theorem enums_deriveClasses (is : List Nat) : (p.deriveClasses s is).1.enums = p.enums := by
  induction is generalizing p with
  | nil => rfl
  | cons i is ih => exact ih.trans enums_deriveClass

theorem classes_deriveClasses_of_not_mem {k : Nat} {is : List Nat} (hk : k ∉ is) :
    (p.deriveClasses s is).1.classes[k]? = p.classes[k]? := by
  induction is generalizing p with
  | nil => rfl
  | cons i is ih =>
      simp only [List.mem_cons, not_or] at hk
      exact (ih hk.2).trans (classes_deriveClass_of_ne hk.1)

theorem deriveClass_congr {j : Nat} (hc : p.classes[i]? = q.classes[j]?)
    (henums : p.enums.map Enumeration.bare = q.enums.map Enumeration.bare) :
    (p.deriveClass s i).fault = (q.deriveClass s j).fault ∧
      (p.deriveClass s i).warnings = (q.deriveClass s j).warnings ∧
      (p.deriveClass s i).result.classes[i]? = (q.deriveClass s j).result.classes[j]? := by
  cases hi : p.classes[i]? with
  | none =>
      have hj : q.classes[j]? = none := hc ▸ hi
      rw [deriveClass_eq_of_none hi, deriveClass_eq_of_none hj]
      exact ⟨rfl, rfl, hc⟩
  | some c =>
      have hj : q.classes[j]? = some c := hc ▸ hi
      have hsame : c.derive (p.planContext s) = c.derive (q.planContext s) := by
        rw [← c.derive_bare, planContext_bare s henums, c.derive_bare]
      rw [deriveClass_eq hi, deriveClass_eq hj, hsame]
      refine ⟨rfl, rfl, ?_⟩
      simp [hi, hj]

/-- Classes that are derived one after the other fare as each of them does alone. -/
theorem deriveClasses_of_nodup {is : List Nat} (his : is.Nodup) :
    (p.deriveClasses s is).2.1 = is.filterMap (fun i => (p.deriveClass s i).fault) ∧
      (p.deriveClasses s is).2.2 = is.flatMap (fun i => (p.deriveClass s i).warnings) ∧
      ∀ i ∈ is, (p.deriveClasses s is).1.classes[i]? = (p.deriveClass s i).result.classes[i]? := by
  induction is generalizing p with
  | nil => exact ⟨rfl, rfl, fun i hi => absurd hi List.not_mem_nil⟩
  | cons i is ih =>
      obtain ⟨hi, his⟩ := List.nodup_cons.mp his
      obtain ⟨hfaults, hwarnings, hclasses⟩ := ih (p := (p.deriveClass s i).result) his
      have hrest : ∀ k ∈ is,
          ((p.deriveClass s i).result.deriveClass s k).fault = (p.deriveClass s k).fault ∧
            ((p.deriveClass s i).result.deriveClass s k).warnings = (p.deriveClass s k).warnings ∧
            ((p.deriveClass s i).result.deriveClass s k).result.classes[k]? =
              (p.deriveClass s k).result.classes[k]? :=
        fun k hk => deriveClass_congr (classes_deriveClass_of_ne (ne_of_mem_of_not_mem hk hi))
          (congrArg (List.map Enumeration.bare) enums_deriveClass)
      refine ⟨?_, ?_, ?_⟩
      · have hsame := List.filterMap_congr fun k hk => (hrest k hk).1
        simp only [deriveClasses, hfaults, hsame]
        cases hf : (p.deriveClass s i).fault with
        | none => simp [hf]
        | some e => simp [hf]
      · have hsame := List.flatMap_congr fun k hk => (hrest k hk).2.1
        simp only [deriveClasses, hwarnings, hsame, List.flatMap_cons]
      · intro k hk
        rcases List.mem_cons.mp hk with rfl | hk
        · exact classes_deriveClasses_of_not_mem hi
        · exact (hclasses k hk).trans (hrest k hk).2.2

/-- Deriving the classes in the order of the program is what deriving the program does with them. -/
theorem deriveClasses_range :
    (p.deriveClasses s (List.range p.classes.length)).1.classes = (p.derived s).classes ∧
      (p.deriveClasses s (List.range p.classes.length)).2.2 = (p.classWarnings s).flatten := by
  have hnodup : (List.range p.classes.length).Nodup := List.nodup_range
  obtain ⟨-, hwarnings, hclasses⟩ := deriveClasses_of_nodup (s := s) (p := p) hnodup
  have hderived : (p.derived s).classes =
      p.classes.map fun c => (c.derive (p.planContext s)).result := by
    simp [derived, classes, List.map_flatMap, List.flatMap_map]
  constructor
  · rw [hderived]
    refine List.ext_getElem? fun k => ?_
    by_cases hk : k < p.classes.length
    · rw [hclasses k (List.mem_range.mpr hk), deriveClass_eq (List.getElem?_eq_getElem hk)]
      simp [hk]
    · rw [classes_deriveClasses_of_not_mem (by simpa using hk)]
      simp [hk]
  · have heach : (List.range p.classes.length).map (fun i => (p.deriveClass s i).warnings) =
        p.classes.map fun c => (c.derive (p.planContext s)).warnings := by
      refine List.ext_getElem (by simp) fun k hk _ => ?_
      have hk' : k < p.classes.length := by simpa using hk
      simp [deriveClass_eq (List.getElem?_eq_getElem hk')]
    rw [hwarnings, List.flatMap_def, heach, classWarnings]

/-- What becomes of a class depends on the enums of its program and on no other class, and nothing else
becomes different.  Two programs hold the class, one at `i` and the other at `j`, and have the same bare
enums; in each of them some other classes are derived first, in any order and whatever becomes of them.
Then the class ends with the same fault or none, with the same warnings and in the same state, which is
its state in the derived program, and all else in its program stays as it was. -/
theorem deriveClass_local {c : Class} {j : Nat} (hi : p.classes[i]? = some c)
    (hj : q.classes[j]? = some c)
    (henums : p.enums.map Enumeration.bare = q.enums.map Enumeration.bare) {is js : List Nat}
    (his : i ∉ is) (hjs : j ∉ js) :
    let before := (p.deriveClasses s is).1
    let here := before.deriveClass s i
    let there := (q.deriveClasses s js).1.deriveClass s j
    here.fault = there.fault ∧ here.warnings = there.warnings ∧
      here.result.classes[i]? = there.result.classes[j]? ∧
      here.result.classes[i]? = (p.derived s).classes[i]? ∧
      (∀ k, k ≠ i → here.result.classes[k]? = before.classes[k]?) ∧
      here.result.enums = before.enums ∧
      ∀ d, here.result.modifyClass i (fun _ => d) = before.modifyClass i fun _ => d := by
  intro before here there
  have hclass : before.classes[i]? = (q.deriveClasses s js).1.classes[j]? := by
    rw [classes_deriveClasses_of_not_mem his, classes_deriveClasses_of_not_mem hjs, hi, hj]
  have hbare : before.enums.map Enumeration.bare =
      (q.deriveClasses s js).1.enums.map Enumeration.bare := by
    rw [enums_deriveClasses, enums_deriveClasses, henums]
  obtain ⟨hfault, hwarnings, hstate⟩ := deriveClass_congr (s := s) hclass hbare
  have hderived : here.result.classes[i]? = (p.derived s).classes[i]? := by
    obtain ⟨hlt, -⟩ := List.getElem?_eq_some_iff.mp hi
    obtain ⟨-, -, hone⟩ := deriveClasses_of_nodup (s := s) (p := p) List.nodup_range
    rw [← deriveClasses_range.1, hone i (List.mem_range.mpr hlt)]
    exact (deriveClass_congr (classes_deriveClasses_of_not_mem his)
      (congrArg (List.map Enumeration.bare) (enums_deriveClasses is))).2.2
  exact ⟨hfault, hwarnings, hstate, hderived, fun k hk => classes_deriveClass_of_ne hk, enums_deriveClass,
    modifyClass_deriveClass⟩

/-- A class with a flag field fares the same in a program where the enum stands on another line and
another class was derived before, which failed. -/
theorem deriveClass_local_after_failure :
    let c : Class := { name := "Unit", fields := [
      { name := "color", type := "int", attributes := [("Flags", .str "Color")] }] }
    let failing : Class := { name := "Other", methods := [{ name := "Run", flags := ⟨[.abstract]⟩ }] }
    let e : Enumeration := { name := "Color", enumerators := [{ name := "Red", line := 4 }] }
    let p : Program := ⟨[{ path := {}, classes := [c], enums := [e] }]⟩
    let q : Program := ⟨[{ path := {}, classes := [failing, c], enums := [{ e with line := 9 }] }]⟩
    (p.classes[0]? = some c ∧ q.classes[1]? = some c ∧
        p.enums.map Enumeration.bare = q.enums.map Enumeration.bare ∧ 0 ∉ ([] : List Nat) ∧ 1 ∉ [0]) ∧
      (p.deriveClass {} 0).result.classes[0]? =
        ((q.deriveClasses {} [0]).1.deriveClass {} 1).result.classes[1]? := by
  intro c failing e p q
  have hlocal := deriveClass_local (s := {}) (p := p) (q := q) (c := c) (i := 0) (j := 1) rfl rfl rfl
    (by decide : 0 ∉ []) (by decide : 1 ∉ [0])
  exact ⟨⟨rfl, rfl, rfl, by decide, by decide⟩, hlocal.2.2.1⟩

end Program

end HeaderReflection
