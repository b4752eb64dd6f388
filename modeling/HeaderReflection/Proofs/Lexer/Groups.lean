import HeaderReflection.Proofs.Lexer.Takes

/-! # Groups whose brackets are balanced

A group is taken from its opening bracket to the bracket that closes it.  Brackets of its own kind are
counted, and what stands in quotes is not.

* A text is balanced if it is put together from other characters, literals and balanced groups
  (`Bracket.IsBalanced`).  What counts as a literal is a parameter.
* Literals are those of `skipLiteral?`, which goes over a backslash together with the character behind it
  (`IsLiteral`).  Taking a group only looks one character back for a backslash; the two agree on every literal
  whose closing quote does not stand behind one (`IsPlainLiteral`, `groupRun_literal`).
* A group is taken whole if the brackets outside of its literals are balanced and its literals are plain,
  whatever stands behind it (`answer_balanced_of_isBalanced`).

The run of a group is described with what it has taken so far in front of its answer (`prepend`), so that its
steps compose. -/

namespace HeaderReflection

/-! ### Balanced texts -/

/-- A literal behind its opening quote `q`: it ends with the quote that closes it. -/
def IsLiteral (q : Char) (body : List Char) : Prop := isQuote q = true ∧ skipLiteral? q body = some []

/-- A literal whose closing quote does not stand behind a backslash. -/
def IsPlainLiteral (q : Char) (body : List Char) : Prop := IsLiteral q body ∧ ¬['\\', q] <:+ body

/-- Characters that neither begin a literal nor open or close a bracket of the kind. -/
structure Bracket.IsPlain (b : Bracket) (c : Char) : Prop where
  not_quote : isQuote c = false
  not_opener : c ≠ b.opener
  not_closer : c ≠ b.closer

instance (b : Bracket) (c : Char) : Decidable (b.IsPlain c) :=
  decidable_of_iff (isQuote c = false ∧ c ≠ b.opener ∧ c ≠ b.closer)
    ⟨fun h => ⟨h.1, h.2.1, h.2.2⟩, fun h => ⟨h.not_quote, h.not_opener, h.not_closer⟩⟩

/-- A text in which every literal is one of `L` and the brackets outside literals are balanced. -/
inductive Bracket.IsBalanced (b : Bracket) (L : Char → List Char → Prop) : List Char → Prop where
  | nil : b.IsBalanced L []
  | char {c : Char} {s : List Char} (hc : b.IsPlain c) (h : b.IsBalanced L s) : b.IsBalanced L (c :: s)
  | literal {q : Char} {l s : List Char} (hl : L q l) (h : b.IsBalanced L s) : b.IsBalanced L (q :: (l ++ s))
  | group {s t : List Char} (hs : b.IsBalanced L s) (ht : b.IsBalanced L t) :
      b.IsBalanced L (b.opener :: (s ++ b.closer :: t))

namespace Bracket.IsBalanced

variable {b : Bracket} {L : Char → List Char → Prop} {s t : List Char}

theorem append (hs : b.IsBalanced L s) (ht : b.IsBalanced L t) : b.IsBalanced L (s ++ t) := by
  induction hs with
  | nil => exact ht
  | char hc _ ih => exact .char hc ih
  | literal hl _ ih =>
      rw [List.cons_append, List.append_assoc]
      exact .literal hl ih
  | group hs _ _ ih =>
      rw [List.cons_append, List.append_assoc, List.cons_append]
      exact .group hs ih

theorem of_forall (h : ∀ c ∈ s, b.IsPlain c) : b.IsBalanced L s := by
  induction s with
  | nil => exact .nil
  | cons c s ih =>
      obtain ⟨hc, hs⟩ := List.forall_mem_cons.mp h
      exact .char hc (ih hs)

end Bracket.IsBalanced

/-! ### The run of a group -/

namespace Lexer

variable {b : Bracket} {level : Nat} {last : Char} {s : List Char}

/-- A text is taken in front of what is taken and what is left. -/
def prepend (u : List Char) (x : Option (List Char × List Char)) : Option (List Char × List Char) :=
  x.map fun p => (u ++ p.1, p.2)

theorem prepend_nil (x : Option (List Char × List Char)) : prepend [] x = x := Option.map_id' ..

theorem prepend_prepend (u v : List Char) (x : Option (List Char × List Char)) :
    prepend u (prepend v x) = prepend (u ++ v) x := by
  cases x with
  | none => rfl
  | some p => simp [prepend]

theorem groupRun_plain {c : Char} (hc : b.IsPlain c) :
    groupRun b level none last (c :: s) = prepend [c] (groupRun b level none c s) := by
  simp only [groupRun, hc.not_quote, hc.not_opener, hc.not_closer, Bool.false_eq_true, if_false]
  rfl

theorem groupRun_quote {q : Char} (hq : isQuote q = true) :
    groupRun b level none last (q :: s) = prepend [q] (groupRun b level (some q) q s) := by
  simp only [groupRun, hq, if_true]
  rfl

theorem groupRun_opener : groupRun b level none last (b.opener :: s) =
    prepend [b.opener] (groupRun b (level + 1) none b.opener s) := by
  have hquote : isQuote b.opener = false := by cases b <;> rfl
  simp only [groupRun, hquote, Bool.false_eq_true, if_false, if_true]
  rfl

theorem groupRun_closer : groupRun b level none last (b.closer :: s) =
    if level ≤ 1 then some ([], s) else prepend [b.closer] (groupRun b (level - 1) none b.closer s) := by
  have hquote : isQuote b.closer = false := by cases b <;> rfl
  have hopener : b.closer ≠ b.opener := by cases b <;> decide
  simp only [groupRun, hquote, hopener, Bool.false_eq_true, if_false, if_true]
  rfl

theorem groupRun_inside {q c : Char} (h : ¬(c = q ∧ last ≠ '\\')) :
    groupRun b level (some q) last (c :: s) = prepend [c] (groupRun b level (some q) c s) := by
  simp only [groupRun, h, if_false]
  rfl

theorem groupRun_close {q : Char} (h : last ≠ '\\') :
    groupRun b level (some q) last (q :: s) = prepend [q] (groupRun b level none q s) := by
  simp only [groupRun, h, ne_eq, not_false_eq_true, and_self, if_true]
  rfl

theorem groupRun_last (last' : Char) : groupRun b level none last s = groupRun b level none last' s := by
  cases s with
  | nil => rfl
  | cons c s => simp only [groupRun]

/-- A literal is taken up to its closing quote if that does not stand behind a backslash, in front of the
literal or in it. -/
theorem groupRun_literal {q : Char} {body : List Char} (hq : isQuote q = true)
    (hbody : skipLiteral? q body = some []) (hlast : ¬['\\', q] <:+ last :: body) :
    groupRun b level (some q) last (body ++ s) = prepend body (groupRun b level none q s) := by
  have hbackslash : q ≠ '\\' := by
    rintro rfl
    exact absurd hq (by decide)
  fun_induction skipLiteral? q body generalizing last with
  | case1 => cases hbody
  | case2 => cases hbody
  | case3 c body ih =>
      have hrest := ih hbody fun h => hlast (h.trans ((List.suffix_cons _ _).trans (List.suffix_cons _ _)))
      rw [List.cons_append, List.cons_append, groupRun_inside (fun h => hbackslash h.1.symm),
        groupRun_inside (fun h => h.2 rfl), hrest, prepend_prepend, prepend_prepend]
      rfl
  | case4 body =>
      obtain rfl := Option.some.inj hbody
      refine groupRun_close ?_
      rintro rfl
      exact hlast List.suffix_rfl
  | case5 c body _ _ hc ih =>
      have hrest := ih hbody fun h => hlast (h.trans (List.suffix_cons _ _))
      rw [List.cons_append, groupRun_inside (fun h => hc h.1), hrest, prepend_prepend]
      rfl

/-- A balanced text is taken whole, and as many brackets are open behind it as in front of it. -/
theorem groupRun_of_isBalanced {u : List Char} (h : b.IsBalanced IsPlainLiteral u) (hlevel : 1 ≤ level) :
    groupRun b level none last (u ++ s) = prepend u (groupRun b level none last s) := by
  induction h generalizing level last s with
  | nil => exact (prepend_nil _).symm
  | @char c u hc _ ih =>
      rw [List.cons_append, groupRun_plain hc, ih hlevel, groupRun_last last, prepend_prepend]
      rfl
  | @literal q body u hl _ ih =>
      obtain ⟨⟨hq, hbody⟩, hplain⟩ := hl
      have hlast : ¬['\\', q] <:+ q :: body := by
        intro h
        rcases List.suffix_cons_iff.mp h with h | h
        · obtain rfl := (List.cons.inj h).1
          exact absurd hq (by decide)
        · exact hplain h
      rw [List.cons_append, List.append_assoc, groupRun_quote hq, groupRun_literal hq hbody hlast, ih hlevel,
        groupRun_last last, prepend_prepend, prepend_prepend]
      rfl
  | @group u v _ _ ihu ihv =>
      have hopen : ¬level + 1 ≤ 1 := by omega
      rw [List.cons_append, List.append_assoc, List.cons_append, groupRun_opener, ihu (by omega), groupRun_closer,
        if_neg hopen, Nat.add_sub_cancel, ihv hlevel, groupRun_last last, prepend_prepend, prepend_prepend,
        prepend_prepend]
      simp

theorem isInside_of_isBalanced {u : List Char} (h : b.IsBalanced IsPlainLiteral u) : IsInside b u := by
  unfold IsInside
  rw [groupRun_of_isBalanced h (Nat.le_refl 1), groupRun_closer, if_pos (Nat.le_refl 1)]
  simp [prepend]

/-- A balanced text between brackets is a group, whatever stands behind it. -/
theorem answer_balanced_of_isBalanced {u : List Char} (h : b.IsBalanced IsPlainLiteral u) (r : List Char) :
    (balanced b).answer (b.opener :: (u ++ b.closer :: r)) = (.ok u, r) :=
  (isInside_of_isBalanced h).answer_balanced r

end Lexer

end HeaderReflection
