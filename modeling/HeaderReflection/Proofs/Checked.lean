import HeaderReflection.Fault

/-! # Computations that may end in a fault

Readers and derivations answer with a result or a fault, in several steps one after the other.  What is said
of such a computation is proved step by step, so there is a predicate for each kind of statement, with a lemma
for each way to put steps together.

* When a computation succeeds, every step does (`bind_eq_ok`, `lift_eq_ok`, `placedAt_eq_ok`).
* `Yields x P` says that `P` holds of the result of `x` if there is one.
* `Ends x P E` says that `P` holds of the result and `E` of the fault.
* `Leads R x y` says that `y` has a result wherever `x` has one, and that `R` holds of both.
* `Alike R x y` says also that `y` has no result otherwise; which faults there are does not matter.

The last two compare a computation with itself on another input.  For them `bindSame` is the case in which the
first step is the very same one.

All predicates are closed under `bind`, under choices by a condition, under the passage from causes to faults
(`lift`), and under filling in a place (`placedAt`). -/

namespace HeaderReflection.Checked

/-! ### Results -/

variable {ε α β : Type}

theorem bind_eq_ok {x : Except ε α} {f : α → Except ε β} {b : β} :
    x >>= f = .ok b ↔ ∃ a, x = .ok a ∧ f a = .ok b := by
  cases x with
  | ok a => simp [bind, Except.bind]
  | error e => simp [bind, Except.bind]

theorem pure_eq_ok {a b : α} : (pure a : Except ε α) = .ok b ↔ a = b :=
  Except.ok.injEq a b ▸ Iff.rfl

theorem throw_ne_ok {e : ε} {b : α} : (throw e : Except ε α) ≠ .ok b := nofun

theorem toOption_eq_some {x : Except ε α} {a : α} : x.toOption = some a ↔ x = .ok a := by
  cases x with
  | ok b => exact ⟨fun h => congrArg _ (Option.some.inj h), fun h => congrArg _ (Except.ok.inj h)⟩
  | error e => exact ⟨nofun, nofun⟩

theorem exists_ok_of_any {x : Except ε α} {check : α → Bool} (h : x.toOption.any check = true) :
    ∃ a, x = .ok a ∧ check a = true := by
  obtain ⟨a, hx, ha⟩ := (Option.any_eq_true _ _).mp h
  exact ⟨a, toOption_eq_some.mp hx, ha⟩

theorem lift_eq_ok {x : Except Cause α} {a : α} : (liftM x : Checked α) = .ok a ↔ x = .ok a := by
  cases x with
  | ok b =>
      show (Except.ok b : Checked α) = .ok a ↔ _
      rw [Except.ok.injEq, Except.ok.injEq]
  | error e => exact ⟨nofun, nofun⟩

theorem placedAt_eq_ok {x : Checked α} {path : SourcePath} {line : Int} {a : α} :
    x.placedAt path line = .ok a ↔ x = .ok a := by
  cases x with
  | ok b => exact Iff.rfl
  | error e => exact ⟨nofun, nofun⟩

/-- What is computed for each element of a list is computed for the list. -/
theorem mapM_eq_ok {f : α → Except ε β} {g : α → β} {l : List α} (h : ∀ a ∈ l, f a = .ok (g a)) :
    l.mapM f = .ok (l.map g) := by
  induction l with
  | nil => rfl
  | cons a l ih =>
      obtain ⟨ha, hl⟩ := List.forall_mem_cons.mp h
      rw [List.mapM_cons, ha, ih hl]
      rfl

theorem exists_mapM_eq_ok {f : α → Except ε β} {l : List α} (h : ∀ a ∈ l, ∃ b, f a = .ok b) :
    ∃ bs, l.mapM f = .ok bs := by
  induction l with
  | nil => exact ⟨[], rfl⟩
  | cons a l ih =>
      obtain ⟨⟨b, hb⟩, hl⟩ := List.forall_mem_cons.mp h
      obtain ⟨bs, hbs⟩ := ih hl
      rw [List.mapM_cons, hb, hbs]
      exact ⟨b :: bs, rfl⟩

theorem map_eq_of_mapM {γ : Type} {f : α → Except ε β} {g : α → γ} {k : β → γ} {l : List α} {bs : List β}
    (hf : ∀ a ∈ l, ∀ b, f a = .ok b → k b = g a) (h : l.mapM f = .ok bs) : bs.map k = l.map g := by
  induction l generalizing bs with
  | nil => exact pure_eq_ok.mp h ▸ rfl
  | cons a l ih =>
      obtain ⟨ha, hl⟩ := List.forall_mem_cons.mp hf
      rw [List.mapM_cons] at h
      obtain ⟨b, hb, h⟩ := bind_eq_ok.mp h
      obtain ⟨cs, hcs, h⟩ := bind_eq_ok.mp h
      obtain rfl := pure_eq_ok.mp h
      rw [List.map_cons, List.map_cons, ha b hb, ih hl hcs]

/-! ### Properties of the result -/

/-- The result of a computation has a property, if there is a result. -/
def Yields (x : Except ε α) (P : α → Prop) : Prop := ∀ a, x = .ok a → P a

namespace Yields

variable {x : Except ε α} {P : α → Prop} {Q : β → Prop}

theorem any (x : Except ε α) : Yields x fun _ => True := fun _ _ => trivial

theorem pure {a : α} (ha : P a) : Yields (Pure.pure a : Except ε α) P :=
  fun _ h => pure_eq_ok.mp h ▸ ha

theorem throw (e : ε) : Yields (MonadExcept.throw e : Except ε α) P :=
  fun _ h => absurd h throw_ne_ok

theorem lift {y : Except Cause α} (hy : Yields y P) : Yields (liftM y : Checked α) P :=
  fun a h => hy a (lift_eq_ok.mp h)

theorem bind {f : α → Except ε β} (hx : Yields x P) (hf : ∀ a, P a → Yields (f a) Q) :
    Yields (x >>= f) Q := by
  intro b h
  obtain ⟨a, ha, h⟩ := bind_eq_ok.mp h
  exact hf a (hx a ha) b h

theorem ite {c : Prop} [Decidable c] {y : Except ε α} (hx : c → Yields x P) (hy : ¬c → Yields y P) :
    Yields (if c then x else y) P := by
  split
  · rename_i hc
    exact hx hc
  · rename_i hc
    exact hy hc

theorem mapM {l : List α} {f : α → Except ε β} (hf : ∀ a ∈ l, Yields (f a) Q) :
    Yields (l.mapM f) fun bs => ∀ b ∈ bs, Q b := by
  induction l with
  | nil => exact pure fun b hb => absurd hb List.not_mem_nil
  | cons a l ih =>
      obtain ⟨ha, hl⟩ := List.forall_mem_cons.mp hf
      rw [List.mapM_cons]
      refine bind ha fun b hb => bind (ih hl) fun bs hbs => pure ?_
      exact List.forall_mem_cons.mpr ⟨hb, hbs⟩

theorem throw_bind (e : ε) {f : α → Except ε β} : Yields (MonadExcept.throw e >>= f) Q :=
  bind (throw (P := fun _ => False) e) fun _ h => h.elim

end Yields

/-! ### Results and faults -/

/-- The result of a computation has a property, or else its fault has one. -/
def Ends (x : Except ε α) (P : α → Prop) (E : ε → Prop) : Prop :=
  match x with
  | .ok a => P a
  | .error e => E e

namespace Ends

variable {x : Except ε α} {P : α → Prop} {Q : β → Prop} {E : ε → Prop}

theorem of_ok {a : α} (h : x = .ok a) (ha : P a) : Ends x P E := h ▸ ha

theorem pure {a : α} (ha : P a) : Ends (Pure.pure a : Except ε α) P E := ha

theorem throw {e : ε} (he : E e) : Ends (MonadExcept.throw e : Except ε α) P E := he

theorem bind {f : α → Except ε β} (hx : Ends x P E) (hf : ∀ a, P a → Ends (f a) Q E) :
    Ends (x >>= f) Q E := by
  cases x with
  | ok a => exact hf a hx
  | error e => exact hx

theorem mono {R : α → Prop} {F : ε → Prop} (h : Ends x P E) (hP : ∀ a, P a → R a) (hE : ∀ e, E e → F e) :
    Ends x R F := by
  cases x with
  | ok a => exact hP a h
  | error e => exact hE e h

theorem map {f : α → β} (h : Ends x P E) (hf : ∀ a, P a → Q (f a)) : Ends (x.map f) Q E := by
  cases x with
  | ok a => exact hf a h
  | error e => exact h

theorem ite {c : Prop} [Decidable c] {y : Except ε α} (hx : c → Ends x P E) (hy : ¬c → Ends y P E) :
    Ends (if c then x else y) P E := by
  split
  · rename_i hc
    exact hx hc
  · rename_i hc
    exact hy hc

theorem throw_bind {e : ε} {f : α → Except ε β} (he : E e) : Ends (MonadExcept.throw e >>= f) Q E := he

theorem of_error {e : ε} (h : Ends x P E) (hx : x = .error e) : E e := by
  subst hx
  exact h

end Ends

/-! ### A result leads to another -/

/-- Where the first computation has a result, so has the second, and the results are related. -/
def Leads {δ : Type} (R : α → β → Prop) (x : Except ε α) (y : Except δ β) : Prop :=
  ∀ a, x = .ok a → ∃ b, y = .ok b ∧ R a b

namespace Leads

variable {δ γ κ : Type} {R : α → β → Prop} {Q : γ → κ → Prop} {x : Except ε α} {y : Except δ β}

theorem refl (x : Except ε α) : Leads Eq x x := fun a h => ⟨a, h, rfl⟩

theorem pure {a : α} {b : β} (h : R a b) : Leads R (Pure.pure a : Except ε α) (Pure.pure b : Except δ β) :=
  fun _ ha => ⟨b, rfl, pure_eq_ok.mp ha ▸ h⟩

theorem throw (e : ε) (y : Except δ β) : Leads R (MonadExcept.throw e : Except ε α) y :=
  fun _ h => absurd h throw_ne_ok

theorem bind {f : α → Except ε γ} {g : β → Except δ κ} (h : Leads R x y)
    (hfg : ∀ a b, R a b → Leads Q (f a) (g b)) : Leads Q (x >>= f) (y >>= g) := by
  intro c hc
  obtain ⟨a, ha, hc⟩ := bind_eq_ok.mp hc
  obtain ⟨b, hb, hab⟩ := h a ha
  obtain ⟨d, hd, hcd⟩ := hfg a b hab c hc
  exact ⟨d, bind_eq_ok.mpr ⟨b, hb, hd⟩, hcd⟩

theorem bindSame {f : α → Except ε γ} {g : α → Except ε κ} (x : Except ε α)
    (hfg : ∀ a, Leads Q (f a) (g a)) : Leads Q (x >>= f) (x >>= g) :=
  (refl x).bind fun a _ hab => hab ▸ hfg a

theorem throw_bind (e : ε) {f : α → Except ε γ} (z : Except δ κ) :
    Leads Q ((MonadExcept.throw e : Except ε α) >>= f) z := by
  intro c hc
  obtain ⟨a, ha, _⟩ := bind_eq_ok.mp hc
  exact absurd ha throw_ne_ok

theorem ite {c : Prop} [Decidable c] {x' : Except ε α} {y' : Except δ β} (h : c → Leads R x y)
    (h' : ¬c → Leads R x' y') : Leads R (if c then x else x') (if c then y else y') := by
  by_cases hc : c
  · rw [if_pos hc, if_pos hc]
    exact h hc
  · rw [if_neg hc, if_neg hc]
    exact h' hc

theorem lift {x : Except Cause α} {y : Except Cause β} (h : Leads R x y) :
    Leads R (liftM x : Checked α) (liftM y : Checked β) := by
  intro a ha
  obtain ⟨b, hb, hab⟩ := h a (lift_eq_ok.mp ha)
  exact ⟨b, lift_eq_ok.mpr hb, hab⟩

theorem placedAt {x : Checked α} {y : Checked β} (h : Leads R x y) (p q : SourcePath) (n m : Int) :
    Leads R (x.placedAt p n) (y.placedAt q m) := by
  intro a ha
  obtain ⟨b, hb, hab⟩ := h a (placedAt_eq_ok.mp ha)
  exact ⟨b, placedAt_eq_ok.mpr hb, hab⟩

end Leads

/-! ### Two computations are alike -/

/-- Both computations have results, which are related, or neither has one. -/
inductive Alike {δ : Type} (R : α → β → Prop) : Except ε α → Except δ β → Prop where
  | ok {a : α} {b : β} (h : R a b) : Alike R (.ok a) (.ok b)
  | error (e : ε) (d : δ) : Alike R (.error e) (.error d)

namespace Alike

variable {δ γ κ : Type} {R S : α → β → Prop} {Q : γ → κ → Prop} {x : Except ε α} {y : Except δ β}

theorem refl (x : Except ε α) : Alike Eq x x := by
  cases x with
  | ok a => exact .ok rfl
  | error e => exact .error e e

theorem pure {a : α} {b : β} (h : R a b) : Alike R (Pure.pure a : Except ε α) (Pure.pure b : Except δ β) :=
  .ok h

theorem throw (e : ε) (d : δ) : Alike R (MonadExcept.throw e : Except ε α) (MonadExcept.throw d : Except δ β) :=
  .error e d

theorem mono (h : Alike R x y) (hR : ∀ a b, R a b → S a b) : Alike S x y := by
  cases h with
  | ok hab => exact .ok (hR _ _ hab)
  | error e d => exact .error e d

theorem bind {f : α → Except ε γ} {g : β → Except δ κ} (h : Alike R x y)
    (hfg : ∀ a b, R a b → Alike Q (f a) (g b)) : Alike Q (x >>= f) (y >>= g) := by
  cases h with
  | ok hab => exact hfg _ _ hab
  | error e d => exact .error e d

theorem bindSame {y : Except δ α} {f : α → Except ε γ} {g : α → Except δ κ} (h : Alike Eq x y)
    (hfg : ∀ a, Alike Q (f a) (g a)) : Alike Q (x >>= f) (y >>= g) :=
  h.bind fun a _ hab => hab ▸ hfg a

theorem throw_bind (e : ε) (d : δ) {f : α → Except ε γ} {g : β → Except δ κ} :
    Alike Q ((MonadExcept.throw e : Except ε α) >>= f) ((MonadExcept.throw d : Except δ β) >>= g) :=
  .error e d

theorem map {f : α → γ} {g : β → κ} (h : Alike R x y) (hfg : ∀ a b, R a b → Q (f a) (g b)) :
    Alike Q (x.map f) (y.map g) := by
  cases h with
  | ok hab => exact .ok (hfg _ _ hab)
  | error e d => exact .error e d

theorem ite {c : Prop} [Decidable c] {x' : Except ε α} {y' : Except δ β} (h : c → Alike R x y)
    (h' : ¬c → Alike R x' y') : Alike R (if c then x else x') (if c then y else y') := by
  by_cases hc : c
  · rw [if_pos hc, if_pos hc]
    exact h hc
  · rw [if_neg hc, if_neg hc]
    exact h' hc

theorem mapError (x : Except ε α) (f : ε → δ) : Alike Eq x (x.mapError f) := by
  cases x with
  | ok a => exact .ok rfl
  | error e => exact .error e _

theorem lift {x : Except Cause α} {y : Except Cause β} (h : Alike R x y) :
    Alike R (liftM x : Checked α) (liftM y : Checked β) := by
  cases h with
  | ok hab => exact .ok hab
  | error e d => exact .error _ _

theorem placedAt {x : Checked α} {y : Checked β} (h : Alike R x y) (p q : SourcePath) (n m : Int) :
    Alike R (x.placedAt p n) (y.placedAt q m) := by
  cases h with
  | ok hab => exact .ok hab
  | error e d => exact .error _ _

theorem leads (h : Alike R x y) : Leads R x y := by
  rintro a rfl
  cases h with
  | ok hab => exact ⟨_, rfl, hab⟩

/-- A computation whose result is the image of another one has it exactly if the other one has. -/
theorem toOption_eq {f : α → β} (h : Alike (fun a b => b = f a) x y) : y.toOption = x.toOption.map f := by
  cases h with
  | ok hab => exact congrArg some hab
  | error e d => rfl

end Alike

end HeaderReflection.Checked
