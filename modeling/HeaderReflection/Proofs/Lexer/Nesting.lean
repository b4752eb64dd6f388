import HeaderReflection.Proofs.Lexer.CommentedRuns

/-! # Nested expressions

An expression is read whole if its literals are closed and its brackets are nested, whatever stands inside
them (`answer_expression_of_isNested`).

* A text is nested if it is put together from other characters, literals and nested groups (`IsNested`).  At
  the top a character that ends an expression may not stand outside of groups.
* A nested text can be put in front of an expression without changing what is open there
  (`IsExpression.nested_append`): the four kinds of brackets are counted apart, so a group leaves every count
  as it was.
* The only brackets that are looked at together with the next character are the angle brackets.  Of several
  that close groups the last one is not followed by another one, and in front of it more than one group is
  open, so they are no operator.

That adjacent closing brackets close as many groups is a case of this, shown for any number of them
(`angleLevels`). -/

namespace HeaderReflection

instance (q : Char) (body : List Char) : Decidable (IsLiteral q body) := inferInstanceAs (Decidable (_ ∧ _))

/-! ### Texts that are nested -/

/-- A text of plain characters, closed literals and groups.  At the top no character ends an expression.  The inside
of an angle group does not begin with an angle group, that is, with another `<`. -/
inductive IsNested : (top : Bool) → List Char → Prop where
  | nil {top : Bool} : IsNested top []
  | char {top : Bool} {c : Char} {s : List Char} (hc : IsPlainChar c)
      (hends : top = true → Lexer.endsExpression c = false) (hs : IsNested top s) : IsNested top (c :: s)
  | literal {top : Bool} {q : Char} {l s : List Char} (hl : IsLiteral q l) (hs : IsNested top s) :
      IsNested top (q :: (l ++ s))
  | group {top : Bool} {b : Bracket} {s t : List Char} (hs : IsNested false s) (hfirst : b = .angle → ¬['<'] <+: s)
      (ht : IsNested top t) : IsNested top (b.opener :: (s ++ b.closer :: t))

namespace IsNested

open Text

variable {top : Bool} {s t : List Char}

theorem inside (h : IsNested top s) : IsNested false s := by
  induction h with
  | nil => exact .nil
  | char hc _ _ ih => exact .char hc nofun ih
  | literal hl _ ih => exact .literal hl ih
  | group hs hfirst _ _ ih => exact .group hs hfirst ih

theorem append (hs : IsNested top s) (ht : IsNested top t) : IsNested top (s ++ t) := by
  induction hs with
  | nil => exact ht
  | char hc hends _ ih => exact .char hc hends (ih ht)
  | literal hl _ ih =>
      rw [List.cons_append, List.append_assoc]
      exact .literal hl (ih ht)
  | group hs hfirst _ _ ih =>
      rw [List.cons_append, List.append_assoc, List.cons_append]
      exact .group hs hfirst (ih ht)

theorem of_forall (hs : ∀ c ∈ s, IsPlainChar c) (hends : top = true → ∀ c ∈ s, Lexer.endsExpression c = false) :
    IsNested top s := by
  induction s with
  | nil => exact .nil
  | cons c s ih =>
      obtain ⟨hc, hs⟩ := List.forall_mem_cons.mp hs
      exact .char hc (fun h => hends h c List.mem_cons_self) (ih hs fun h d hd => hends h d (List.mem_cons_of_mem c hd))

theorem not_closer_prefix (h : IsNested top s) : ¬['>'] <+: s := by
  rintro ⟨v, hv⟩
  cases h with
  | nil => cases hv
  | char hc =>
      obtain ⟨rfl, -⟩ := List.cons.inj hv
      exact absurd hc.not_closer (by decide)
  | literal hl =>
      obtain ⟨rfl, -⟩ := List.cons.inj hv
      exact absurd hl.1 (by decide)
  | @group _ b =>
      obtain ⟨hb, -⟩ := List.cons.inj hv
      revert hb
      cases b
      all_goals decide

theorem trimLeft (h : IsNested top s) : IsNested top (Text.trimLeft s) := by
  have hopener : ∀ b : Bracket, isBlank b.opener = false := by
    intro b
    cases b
    all_goals rfl
  induction h with
  | nil => exact .nil
  | @char _ c s hc hends hs ih =>
      by_cases hblank : isBlank c = true
      · have hskip : Text.trimLeft (c :: s) = Text.trimLeft s := List.dropWhile_cons_of_pos hblank
        rw [hskip]
        exact ih
      · have hkeep : Text.trimLeft (c :: s) = c :: s := List.dropWhile_cons_of_neg hblank
        rw [hkeep]
        exact .char hc hends hs
  | @literal _ q l s hl hs _ =>
      have hquote : isBlank q = false := by
        rcases Bool.or_eq_true_iff.mp hl.1 with h | h
        · rw [eq_of_beq h]
          rfl
        · rw [eq_of_beq h]
          rfl
      have hkeep : Text.trimLeft (q :: (l ++ s)) = q :: (l ++ s) := List.dropWhile_cons_of_neg (by simp [hquote])
      rw [hkeep]
      exact .literal hl hs
  | @group _ b s t hs hfirst ht _ _ =>
      have hkeep : Text.trimLeft (b.opener :: (s ++ b.closer :: t)) = b.opener :: (s ++ b.closer :: t) :=
        List.dropWhile_cons_of_neg (by simp [hopener b])
      rw [hkeep]
      exact .group hs hfirst ht

end IsNested

namespace Lexer

open Text

variable {d : Depths} {b : Bracket} {top : Bool} {s r : List Char}

/-! ### Nested texts -/

/-- A nested text goes in front of an expression.  This may begin with `>` only inside an angle group. -/
theorem IsExpression.nested_append (h : IsNested top s) (hr : IsExpression d r) (htop : top = false → d.isZero = false)
    (hnext : ['>'] <+: r → d.angle ≠ 0) : IsExpression d (s ++ r) := by
  induction h generalizing d r with
  | nil => exact hr
  | @char top c s hc hends _ ih =>
      refine .item (w := [c]) (.plain hc fun hzero => ?_) (ih hr htop hnext)
      cases top with
      | true => exact hends rfl
      | false => exact absurd (hzero.symm.trans (htop rfl)) Bool.noConfusion
  | @literal top q l s hl _ ih =>
      rw [List.cons_append, List.append_assoc]
      exact .item (w := q :: l) (.literal hl) (ih hr htop hnext)
  | @group top b s t hs hfirst ht ihs iht =>
      have hopen : b = .angle → ¬['<'] <+: s ++ b.closer :: (t ++ r) := by
        rintro rfl hprefix
        rcases singleton_prefix_append hprefix with hs | ⟨-, hcloser⟩
        · exact hfirst rfl hs
        · obtain ⟨v, hv⟩ := hcloser
          exact absurd (List.cons.inj hv).1 (by decide)
      have hinside : ['>'] <+: b.closer :: (t ++ r) → (d.opened b).angle ≠ 0 := by
        rintro ⟨v, hv⟩
        obtain ⟨hb, -⟩ := List.cons.inj hv
        cases b with
        | angle => exact Nat.succ_ne_zero _
        | round | square | curly => exact absurd hb (by decide)
      have hclose : b = .angle → ['>'] <+: t ++ r → 2 ≤ (d.opened b).angle := by
        rintro rfl hprefix
        rcases singleton_prefix_append hprefix with ht' | ⟨-, hr⟩
        · exact absurd ht' ht.not_closer_prefix
        · exact Nat.succ_le_succ (Nat.pos_of_ne_zero (hnext hr))
      have hbehind : IsExpression (d.opened b) (b.closer :: (t ++ r)) :=
        .item (w := [b.closer]) (.closes (Depths.closed?_opened d b) hclose) (iht hr htop hnext)
      rw [List.cons_append, List.append_assoc, List.cons_append]
      exact .item (w := [b.opener]) (.opens hopen) (ihs hbehind (fun _ => isZero_opened d b) hinside)

/-- A nested expression is read up to what ends it. -/
theorem answer_expression_of_isNested (h : IsNested true s) (hr : EndsExpression r) :
    expression.answer (s ++ r) = (.ok (Text.trim s), r) := by
  have hskip : trimLeft (s ++ r) = trimLeft s ++ r := by
    by_cases hs : trimLeft s = []
    · rw [TrailingComment.trimLeft_append_of_blank hs, hs, hr.trimLeft_eq]
      rfl
    · exact TrailingComment.trimLeft_append hs r
  have hexpression : IsExpression {} (trimLeft s ++ []) := .nested_append h.trimLeft .nil nofun nofun
  rw [List.append_nil] at hexpression
  rw [answer_expression, hskip, hexpression.run_eq hr]
  dsimp only
  rw [taken_append, Text.trim, trimLeft_trimLeft]
  rfl

/-! ### Adjacent closing brackets -/

/-- The text of `n` angle groups inside each other, with `p` in front of each one and `s` in the innermost. -/
def angleLevels (p s : List Char) (n : Nat) : List Char :=
  (List.replicate n (p ++ ['<'])).flatten ++ s ++ List.replicate n '>'

theorem angleLevels_succ (p s : List Char) (n : Nat) :
    angleLevels p s (n + 1) = p ++ '<' :: (angleLevels p s n ++ ['>']) := by
  unfold angleLevels
  rw [List.replicate_succ, List.flatten_cons, List.replicate_succ']
  simp

theorem isNested_angleLevels {p : List Char} (hp : IsNested true p) (hp' : p ≠ []) (hfirst : ¬['<'] <+: p)
    (hs : IsNested false s) (hs' : ¬['<'] <+: s) (n : Nat) : IsNested true (angleLevels p s (n + 1)) := by
  have hgroup : ∀ {top u}, IsNested false u → ¬['<'] <+: u → IsNested top ('<' :: (u ++ ['>'])) :=
    fun hu hu' => .group (b := .angle) hu (fun _ => hu') .nil
  suffices h : IsNested false (angleLevels p s n) ∧ ¬['<'] <+: angleLevels p s n by
    rw [angleLevels_succ]
    exact hp.append (hgroup h.1 h.2)
  induction n with
  | zero =>
      have hzero : angleLevels p s 0 = s := by simp [angleLevels]
      rw [hzero]
      exact ⟨hs, hs'⟩
  | succ n ih =>
      rw [angleLevels_succ]
      refine ⟨hp.inside.append (hgroup ih.1 ih.2), fun hprefix => ?_⟩
      rcases singleton_prefix_append hprefix with h | ⟨h, -⟩
      · exact hfirst h
      · exact hp' h

/-- Every nested expression is read whole, up to what ends it; among these are any number of angle groups that are
closed by as many adjacent brackets.  A text that is refused loses its blanks in front and nothing else. -/
theorem expression_whole_of_isNested :
    (∀ s r, IsNested true s → EndsExpression r → expression.answer (s ++ r) = (.ok (Text.trim s), r)) ∧
    (∀ p s r n, IsNested true p → p ≠ [] → ¬['<'] <+: p → IsNested false s → ¬['<'] <+: s → EndsExpression r →
      expression.answer (angleLevels p s (n + 1) ++ r) = (.ok (Text.trim (angleLevels p s (n + 1))), r)) ∧
    ∀ s e r, expression.answer s = (.error e, r) → r = trimLeft s := by
  refine ⟨fun s r => answer_expression_of_isNested, fun p s r n hp hp' hfirst hs hs' hr => ?_, fun s e r h => ?_⟩
  · exact answer_expression_of_isNested (isNested_angleLevels hp hp' hfirst hs hs' n) hr
  · rw [answer_expression] at h
    cases hrun : expressionRun {} (trimLeft s) with
    | ok rest =>
        rw [hrun] at h
        cases h
    | error e' =>
        rw [hrun] at h
        exact (Prod.mk.inj h).2.symm

theorem expression_whole_of_isNested_closers :
    expression.answer " m<k, v<v<t>>>(\">)\", [c; '\\'']); x".toList =
        (.ok "m<k, v<v<t>>>(\">)\", [c; '\\''])".toList, "; x".toList) ∧
      expression.answer "v<v<v<v<f(a, b)>>>>, x".toList = (.ok "v<v<v<v<f(a, b)>>>>".toList, ", x".toList) ∧
      expression.answer "  f(1, 2".toList = (.error (.openBracket .expression), "f(1, 2".toList) := by
  have hnames : IsNested false "k, v<v<t>>".toList :=
    .append (s := "k, v".toList) (.of_forall (by decide) nofun) (.group (b := .angle)
      (.append (s := "v".toList) (.of_forall (by decide) nofun) (.group (b := .angle)
        (.of_forall (s := "t".toList) (by decide) nofun) (by decide) .nil)) (by decide) .nil)
  have hvalues : IsNested false "\">)\", [c; '\\'']".toList :=
    .literal (l := ">)\"".toList) (by decide) (.append (s := ", ".toList) (.of_forall (by decide) nofun)
      (.group (b := .square) (.append (s := "c; ".toList) (.of_forall (by decide) nofun)
        (.literal (l := "\\''".toList) (by decide) .nil)) nofun .nil))
  have hwhole : IsNested true " m<k, v<v<t>>>(\">)\", [c; '\\''])".toList :=
    .append (s := " m".toList) (.of_forall (by decide) (by decide)) (.group (b := .angle) hnames (by decide)
      (.group (b := .round) hvalues nofun .nil))
  have hcall : IsNested false "f(a, b)".toList :=
    .append (s := "f".toList) (.of_forall (by decide) nofun) (.group (b := .round)
      (.of_forall (s := "a, b".toList) (by decide) nofun) nofun .nil)
  have hname : IsNested true "v".toList := .of_forall (by decide) (by decide)
  refine ⟨?_, ?_, ?_⟩
  · have hread := expression_whole_of_isNested.1 _ "; x".toList hwhole (.inr ⟨';', by decide, by decide⟩)
    have htrim : Text.trim " m<k, v<v<t>>>(\">)\", [c; '\\''])".toList = "m<k, v<v<t>>>(\">)\", [c; '\\''])".toList := by
      decide
    rw [htrim] at hread
    exact hread
  · have hread := expression_whole_of_isNested.2.1 _ _ ", x".toList 3 hname (by decide) (by decide) hcall (by decide)
      (.inr ⟨',', by decide, by decide⟩)
    have hlevels : angleLevels "v".toList "f(a, b)".toList (3 + 1) = "v<v<v<v<f(a, b)>>>>".toList := by decide
    have htrim : Text.trim "v<v<v<v<f(a, b)>>>>".toList = "v<v<v<v<f(a, b)>>>>".toList := by decide
    rw [hlevels, htrim] at hread
    exact hread
  · have hrun : (expression.answer "  f(1, 2".toList).1 = .error (.openBracket .expression) := by
      rw [answer_expression]
      cbv
    exact Prod.ext hrun (expression_whole_of_isNested.2.2 _ _ _ (Prod.ext hrun rfl))

end Lexer

end HeaderReflection
