import HeaderReflection.Lexer.Iterate

/-! # What lexers answer

`m.Yields P` says that `P` holds of whatever the lexer `m` answers, on every text.  It is proved along the way
in which a lexer is put together: one step after the other (`Yields.bind`), one branch or the other
(`Yields.ite`), or one step over and over (`Yields.iterate`).

A lexer may also fail, and then `Yields` says nothing.  It says nothing of what is left either, so it is the
right form only where an answer can be judged without the text that it was read from: an identifier is a word,
a flag stands in a table.  Where the text matters, `Takes` and `Finds` say more.

Lexers are functions on texts in a monad, and nothing here opens one.  What a lexer does on a given text is
written `m.answer s`, and the first lemmas say how the answer of two lexers in a row is found from theirs. -/

namespace HeaderReflection.Lexer

/-! ### Answers -/

variable {α β : Type} {P : α → Prop} {Q : β → Prop}

theorem answer_bind_of_ok {m : Lexer α} {f : α → Lexer β} {s t : List Char} {a : α}
    (h : m.answer s = (.ok a, t)) : (m >>= f).answer s = (f a).answer t := by
  unfold answer at h ⊢
  rw [ExceptT.run_bind, StateT.run_bind, h]
  rfl

theorem answer_bind_of_error {m : Lexer α} {f : α → Lexer β} {s t : List Char} {e : Cause}
    (h : m.answer s = (.error e, t)) : (m >>= f).answer s = (.error e, t) := by
  unfold answer at h ⊢
  rw [ExceptT.run_bind, StateT.run_bind, h]
  rfl

/-- A lexer followed by another one answers if both do. -/
theorem bind_answer_eq_ok {m : Lexer α} {f : α → Lexer β} {s r : List Char} {b : β} :
    (m >>= f).answer s = (.ok b, r) ↔ ∃ a t, m.answer s = (.ok a, t) ∧ (f a).answer t = (.ok b, r) := by
  constructor
  · intro h
    cases hcase : m.answer s with
    | mk o t =>
        cases o with
        | ok a => exact ⟨a, t, rfl, (answer_bind_of_ok hcase).symm.trans h⟩
        | error e => cases (answer_bind_of_error hcase).symm.trans h
  · rintro ⟨a, t, hfirst, hsecond⟩
    rw [answer_bind_of_ok hfirst, hsecond]

/-! ### Lexers whose answers have a property -/

/-- Every answer of a lexer has a property. -/
def Yields (m : Lexer α) (P : α → Prop) : Prop :=
  ∀ s a r, m.answer s = (.ok a, r) → P a

namespace Yields

theorem of_eval {m : Lexer α} (hm : m.Yields P) {s : List Char} {a : α} (h : m.eval s = .ok a) :
    P a := by
  refine hm s a (m.answer s).2 ?_
  rw [← h]
  rfl

theorem any (m : Lexer α) : m.Yields fun _ => True :=
  fun _ _ _ _ => trivial

theorem pure {a : α} (ha : P a) : Yields (Pure.pure a) P := by
  intro s b r h
  cases h
  exact ha

theorem throw (e : Cause) : Yields (throw e : Lexer α) P := by
  intro s a r h
  cases h

theorem bind {m : Lexer α} {f : α → Lexer β} (hm : m.Yields P) (hf : ∀ a, P a → (f a).Yields Q) :
    Yields (m >>= f) Q := by
  intro s b r h
  obtain ⟨a, t, hfirst, hsecond⟩ := bind_answer_eq_ok.mp h
  exact hf a (hm s a t hfirst) t b r hsecond

theorem throw_bind (e : Cause) {f : α → Lexer β} : Yields (MonadExcept.throw e >>= f) Q :=
  bind (throw (P := fun _ => False) e) fun _ h => h.elim

theorem ite {c : Prop} [Decidable c] {m n : Lexer α} (hm : c → m.Yields P) (hn : ¬c → n.Yields P) :
    Yields (if c then m else n) P := by
  split
  · rename_i hc
    exact hm hc
  · rename_i hc
    exact hn hc

/-- What every step keeps of the value, the repetition keeps. -/
theorem iterate {step : α → Lexer (ForInStep α)} (hstep : ∀ x, P x → (step x).Yields fun y => P y.value)
    {x : α} (hx : P x) : (Lexer.iterate step x).Yields P := by
  intro s y r h
  refine iterateOn_invariant (P := fun z _ => P z) ?_ hx (h : iterateOn step x s = (.ok y, r))
  intro z t hz w u hcase
  rcases hcase with hyield | hdone
  · exact hstep z hz t _ u hyield
  · exact hstep z hz t _ u hdone

theorem swallowOneOf {table : List (List Char × α)} (htable : ∀ p ∈ table, P p.2) :
    (Lexer.swallowOneOf table).Yields fun o => ∀ a, o = some a → P a := by
  induction table with
  | nil => exact bind (any _) fun _ _ => pure (by simp)
  | cons p table ih =>
      obtain ⟨hp, htable⟩ := List.forall_mem_cons.mp htable
      refine bind (any _) fun b _ => ?_
      cases b with
      | true => exact pure fun a ha => Option.some.inj ha ▸ hp
      | false => exact ih htable

end Yields

end HeaderReflection.Lexer
