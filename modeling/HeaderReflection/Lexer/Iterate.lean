import HeaderReflection.Lexer.Basic

/-! # Repetition

`iterate` repeats a step that carries a value, until the step says that it is done, fails, or takes
nothing away.  The last case makes every repetition end and does not arise for steps that take
something each time (`iterateOn_invariant` states what holds of all of them). -/

namespace HeaderReflection.Lexer

variable {σ : Type}

/-- Repeats `step` on the text `s`. -/
def iterateOn (step : σ → Lexer (ForInStep σ)) (x : σ) (s : List Char) :
    Except Cause σ × List Char :=
  match (step x).answer s with
  | (.ok (.done y), r) => (.ok y, r)
  | (.ok (.yield y), r) => if r.length < s.length then iterateOn step y r else (.ok y, r)
  | (.error e, r) => (.error e, r)
termination_by s.length

/-- Repeats `step`. -/
def iterate (step : σ → Lexer (ForInStep σ)) (x : σ) : Lexer σ := ExceptT.mk (iterateOn step x)

/-- What a step keeps between value and text is kept by the repetition. -/
theorem iterateOn_invariant {step : σ → Lexer (ForInStep σ)} {P : σ → List Char → Prop}
    (hstep : ∀ x s, P x s → ∀ y r, (step x).answer s = (.ok (.yield y), r) ∨
      (step x).answer s = (.ok (.done y), r) → P y r)
    {x : σ} {s : List Char} (h : P x s) {y : σ} {r : List Char}
    (e : iterateOn step x s = (.ok y, r)) : P y r := by
  fun_induction iterateOn step x s with
  | case1 x s z t hz =>
      simp only [Prod.mk.injEq, Except.ok.injEq] at e
      obtain ⟨rfl, rfl⟩ := e
      exact hstep x s h _ _ (.inr hz)
  | case2 x s z t hz _ ih => exact ih (hstep x s h _ _ (.inl hz)) e
  | case3 x s z t hz _ =>
      simp only [Prod.mk.injEq, Except.ok.injEq] at e
      obtain ⟨rfl, rfl⟩ := e
      exact hstep x s h _ _ (.inl hz)
  | case4 x s z t hz => simp at e

/-- Takes the first of the listed words that comes next, and answers what it is listed with. -/
def swallowOneOf {α : Type} : List (List Char × α) → Lexer (Option α)
  | [] => do
    trim
    return none
  | (w, a) :: table => do
    if ← swallowWord w then return some a
    swallowOneOf table

end HeaderReflection.Lexer
