import HeaderReflection.Proofs.Lexer.CommentedRuns

/-! # Expressions in front of a semicolon

A field is written with an initializer and a semicolon, and when it is written again the blanks between them
may be others.  They do not matter, and neither does what stands behind the semicolon.

* A blank is an item of its own in an expression, or a part of a literal; no item goes on from something else
  into blanks (`ExpressionItem.eq_nil_of_append_blank`).
* So blanks may be put behind an expression and taken away from it (`IsExpression.append_blank`,
  `IsExpression.of_append_blank`).
* An expression in front of a semicolon therefore ends there, whatever blanks stand between them and whatever
  follows (`expressionRun_semicolon`). -/

namespace HeaderReflection.Lexer

open Text

variable {d e : Depths} {s t y z w : List Char} {c : Char}

/-! ### Blanks -/

theorem isPlainChar_of_isBlank (hc : isBlank c = true) : IsPlainChar c := by
  have hvisible : ∀ e ∈ ['"', '\''], c ≠ e := by
    rintro e he rfl
    have hnone : ∀ e ∈ ['"', '\''], isBlank e = false := by decide
    rw [hnone c he] at hc
    cases hc
  exact ⟨by simp [isQuote, hvisible '"' (by decide), hvisible '\'' (by decide)], ofOpener?_of_isBlank hc,
    ofCloser?_of_isBlank hc⟩

theorem endsExpression_of_isBlank (hc : isBlank c = true) : endsExpression c = false := by
  refine Bool.eq_false_iff.mpr fun hends => ?_
  have hvisible : ∀ c ∈ [',', ')', ';'], isBlank c = false := by decide
  rw [hvisible c (by simpa [endsExpression, or_assoc] using hends)] at hc
  cases hc

/-- An item ends with a character that is no blank, or is one character and changes no count. -/
theorem ExpressionItem.visible_or_single (h : ExpressionItem d w s e) :
    (∃ m c, w = m ++ [c] ∧ isBlank c = false) ∨ (∃ c, w = [c]) ∧ e = d := by
  cases h with
  | literal hl =>
      obtain ⟨m, rfl⟩ := exists_concat_of_skipLiteral? hl.2
      refine .inl ⟨_ :: m, _, rfl, Bool.eq_false_iff.mpr fun hblank => ?_⟩
      exact absurd (hl.1.symm.trans (isPlainChar_of_isBlank hblank).not_quote) Bool.noConfusion
  | shiftLeft => exact .inl ⟨['<'], '<', rfl, rfl⟩
  | shiftRight => exact .inl ⟨['>'], '>', rfl, rfl⟩
  | opens hfirst =>
      rename_i b
      refine .inl ⟨[], b.opener, rfl, ?_⟩
      cases b
      all_goals rfl
  | closes hclosed hlast =>
      rename_i b
      refine .inl ⟨[], b.closer, rfl, ?_⟩
      cases b
      all_goals rfl
  | greater => exact .inr ⟨⟨_, rfl⟩, rfl⟩
  | plain => exact .inr ⟨⟨_, rfl⟩, rfl⟩

theorem ExpressionItem.eq_nil_of_append_blank (h : ExpressionItem d (t ++ y) s e) (hy : isBlankText y = true)
    (hne : y ≠ []) : t = [] ∧ e = d := by
  rcases h.visible_or_single with ⟨m, c, hlast, hc⟩ | ⟨⟨c, hsingle⟩, rfl⟩
  · rw [← List.dropLast_concat_getLast hne, ← List.append_assoc] at hlast
    have hend : y.getLast hne = c := (List.cons.inj (List.append_inj' hlast rfl).2).1
    have hblank := List.all_eq_true.mp hy _ (List.getLast_mem hne)
    rw [hend, hc] at hblank
    cases hblank
  · refine ⟨?_, rfl⟩
    cases t with
    | nil => rfl
    | cons b t => exact absurd (List.append_eq_nil_iff.mp (List.cons.inj hsingle).2).2 hne

theorem prefix_of_append_blank (hy : isBlankText y = true) (hc : isBlank c = false) (h : [c] <+: s ++ y) :
    [c] <+: s := by
  refine (singleton_prefix_append h).resolve_right fun ⟨_, v, hv⟩ => ?_
  rw [← hv] at hy
  have hblank : isBlank c = true := (Bool.and_eq_true_iff.mp hy).1
  rw [hc] at hblank
  cases hblank

/-! ### Expressions and the blanks behind them -/

theorem isExpression_of_isBlankText (hy : isBlankText y = true) : IsExpression {} y := by
  induction y with
  | nil => exact .nil
  | cons b y ih =>
      obtain ⟨hb, hy⟩ := Bool.and_eq_true_iff.mp hy
      exact .item (w := [b]) (.plain (isPlainChar_of_isBlank hb) fun _ => endsExpression_of_isBlank hb) (ih hy)

theorem IsExpression.append_blank (h : IsExpression d t) (hy : isBlankText y = true) : IsExpression d (t ++ y) := by
  induction h with
  | nil => exact isExpression_of_isBlankText hy
  | item hw _ ih =>
      have hvisible : ∀ c ∈ ['<', '>'], isBlank c = false := by decide
      rw [List.append_assoc]
      exact .item (hw.of_next fun c hc => prefix_of_append_blank hy (hvisible c hc)) ih

theorem IsExpression.of_append_blank (h : IsExpression d (t ++ y)) (hy : isBlankText y = true) : IsExpression d t := by
  generalize hs : t ++ y = s at h
  induction h generalizing t y with
  | nil =>
      obtain ⟨rfl, -⟩ := List.append_eq_nil_iff.mp hs
      exact .nil
  | @item d e w u hw _ ih =>
      rcases List.append_eq_append_iff.mp hs with ⟨a, rfl, rfl⟩ | ⟨a, rfl, rfl⟩
      · obtain ⟨ha, hu⟩ := Bool.and_eq_true_iff.mp (List.all_append.symm.trans hy)
        have hrest : IsExpression e [] := ih hu rfl
        -- The item ends where the blanks begin, or it is the first of them.
        cases a with
        | nil =>
            rw [List.append_nil] at hw
            have hlast : IsExpression d (t ++ []) := .item (hw.of_next fun c _ hprefix => by simp at hprefix) hrest
            rwa [List.append_nil] at hlast
        | cons b a =>
            obtain ⟨rfl, rfl⟩ := hw.eq_nil_of_append_blank ha (List.cons_ne_nil b a)
            exact hrest
      · exact .item (hw.of_next fun c _ hprefix => hprefix.trans (List.prefix_append a y)) (ih hy rfl)

/-- An expression in front of a semicolon ends there, whatever blanks stand between them and whatever follows. -/
theorem expressionRun_semicolon (hy : isBlankText y = true)
    (h : expressionRun d (s ++ (y ++ ';' :: z)) = .ok (';' :: z)) {y' : List Char} (hy' : isBlankText y' = true)
    (z' : List Char) : expressionRun d (s ++ (y' ++ ';' :: z')) = .ok (';' :: z') := by
  obtain ⟨t, ht, hexpression, -⟩ := expressionRun_eq_ok_iff.mp h
  obtain rfl : s ++ y = t := List.append_cancel_right ((List.append_assoc s y _).trans ht)
  have hends : EndsExpression (';' :: z') := .inr ⟨';', by decide, z', rfl⟩
  rw [← List.append_assoc]
  exact ((hexpression.of_append_blank hy).append_blank hy').run_eq hends

end HeaderReflection.Lexer
