import HeaderReflection.Lexer.Expression
import HeaderReflection.Proofs.Lexer.Groups

/-! # Expressions item by item

The reader of expressions is one recursive function on characters, which looks ahead in some places.  What it
takes is described without it.

* An expression consists of items: closed literals, the operators `<<` and `>>`, brackets, and other
  characters (`ExpressionItem`).  An item changes the counts of open brackets and nothing else
  (`ExpressionItem.run_eq`).
* A text is an expression if it is a row of items that leaves nothing open (`IsExpression`).  It is so
  whatever follows it.
* A comma, a closing parenthesis or a semicolon ends an expression where nothing is open, and so does the end
  of the text (`EndsExpression`).
* A reader takes an expression up to such a character and nothing else (`expressionRun_eq_ok_iff`).

Statements on expressions go by induction on `IsExpression`, with one case for an item.  The context of an
item is needed only for angle brackets, where the next character decides whether one is a bracket or half an
operator. -/

namespace HeaderReflection

/-! ### Items -/

/-- Characters that neither begin a literal nor are brackets. -/
structure IsPlainChar (c : Char) : Prop where
  not_quote : isQuote c = false
  not_opener : Bracket.ofOpener? c = none
  not_closer : Bracket.ofCloser? c = none

instance (c : Char) : Decidable (IsPlainChar c) :=
  decidable_of_iff (isQuote c = false ∧ Bracket.ofOpener? c = none ∧ Bracket.ofCloser? c = none)
    ⟨fun ⟨hq, ho, hc⟩ => ⟨hq, ho, hc⟩, fun ⟨hq, ho, hc⟩ => ⟨hq, ho, hc⟩⟩

theorem IsPlainChar.ne_angle {c : Char} (hc : IsPlainChar c) : c ≠ '<' ∧ c ≠ '>' := by
  constructor
  · rintro rfl
    exact absurd hc.not_opener (by decide)
  · rintro rfl
    exact absurd hc.not_closer (by decide)

namespace Lexer

open Text

/-- The text `w` in front of `s` is an item of an expression where the counts are `d`, and behind it they are `e`.
Of what follows only the next character matters, and only to a single angle bracket. -/
inductive ExpressionItem : (d : Depths) → (w s : List Char) → (e : Depths) → Prop where
  | literal {d : Depths} {q : Char} {l s : List Char} (hl : IsLiteral q l) : ExpressionItem d (q :: l) s d
  | shiftLeft {d : Depths} {s : List Char} : ExpressionItem d ['<', '<'] s d
  | shiftRight {d : Depths} {s : List Char} (hfew : d.angle < 2) : ExpressionItem d ['>', '>'] s d
  | opens {d : Depths} {b : Bracket} {s : List Char} (hfirst : b = .angle → ¬['<'] <+: s) :
      ExpressionItem d [b.opener] s (d.opened b)
  | closes {d e : Depths} {b : Bracket} {s : List Char} (hclosed : d.closed? b = some e)
      (hlast : b = .angle → ['>'] <+: s → 2 ≤ d.angle) : ExpressionItem d [b.closer] s e
  /-- An angle bracket that closes nothing. -/
  | greater {d : Depths} {s : List Char} (hnone : d.angle = 0) (hlast : ¬['>'] <+: s) : ExpressionItem d ['>'] s d
  | plain {d : Depths} {c : Char} {s : List Char} (hc : IsPlainChar c)
      (hends : d.isZero = true → endsExpression c = false) : ExpressionItem d [c] s d

/-- From the counts `d` on, the text is read item by item, and nothing is open behind it. -/
inductive IsExpression : Depths → List Char → Prop where
  | nil : IsExpression {} []
  | item {d e : Depths} {w s : List Char} (hw : ExpressionItem d w s e) (hs : IsExpression e s) :
      IsExpression d (w ++ s)

/-- What may follow an expression: nothing, or a character that ends it. -/
def EndsExpression (r : List Char) : Prop := r = [] ∨ ∃ c ∈ [',', ')', ';'], [c] <+: r

variable {d e : Depths} {b : Bracket} {c q : Char} {l s t r w : List Char}

/-! ### Literals -/

theorem ne_backslash (hlone : c = '\\' → s = [] → False) (hescape : ∀ e v, c = '\\' → s = e :: v → False) :
    c ≠ '\\' := by
  intro hc
  cases s with
  | nil => exact hlone hc rfl
  | cons e v => exact hescape e v hc rfl

theorem skipLiteral?_cons (hescape : c ≠ '\\') :
    skipLiteral? q (c :: s) = if c = q then some s else skipLiteral? q s := by
  rw [skipLiteral?]
  · exact fun h _ => hescape h
  · exact fun e v h _ => hescape h

theorem skipLiteral?_append (h : skipLiteral? q s = some r) (x : List Char) :
    skipLiteral? q (s ++ x) = some (r ++ x) := by
  fun_induction skipLiteral? q s with
  | case1 => cases h
  | case2 => cases h
  | case3 d s ih => exact ih h
  | case4 s hlone hescape =>
      cases h
      rw [List.cons_append, skipLiteral?_cons (ne_backslash hlone hescape), if_pos rfl]
  | case5 d s hlone hescape hd ih =>
      rw [List.cons_append, skipLiteral?_cons (ne_backslash hlone hescape), if_neg hd]
      exact ih h

theorem exists_literal_of_skipLiteral? (h : skipLiteral? q s = some r) :
    ∃ l, s = l ++ r ∧ skipLiteral? q l = some [] := by
  fun_induction skipLiteral? q s with
  | case1 => cases h
  | case2 => cases h
  | case3 c s ih =>
      obtain ⟨l, rfl, hl⟩ := ih h
      exact ⟨'\\' :: c :: l, rfl, hl⟩
  | case4 s hlone hescape =>
      cases h
      refine ⟨[q], rfl, ?_⟩
      rw [skipLiteral?_cons (ne_backslash hlone hescape), if_pos rfl]
  | case5 c s hlone hescape hc ih =>
      obtain ⟨l, rfl, hl⟩ := ih h
      refine ⟨c :: l, rfl, ?_⟩
      rw [skipLiteral?_cons (ne_backslash hlone hescape), if_neg hc]
      exact hl

theorem exists_concat_of_skipLiteral? (h : skipLiteral? q l = some []) : ∃ m, l = m ++ [q] := by
  fun_induction skipLiteral? q l with
  | case1 => cases h
  | case2 => cases h
  | case3 c s ih =>
      obtain ⟨m, rfl⟩ := ih h
      exact ⟨'\\' :: c :: m, rfl⟩
  | case4 =>
      cases h
      exact ⟨[], rfl⟩
  | case5 c s _ _ _ ih =>
      obtain ⟨m, rfl⟩ := ih h
      exact ⟨c :: m, rfl⟩

/-! ### Next characters -/

theorem singleton_prefix_append {u v : List Char} (h : [c] <+: u ++ v) : [c] <+: u ∨ u = [] ∧ [c] <+: v := by
  cases u with
  | nil => exact .inr ⟨rfl, h⟩
  | cons e u =>
      obtain ⟨w, hw⟩ := h
      obtain ⟨rfl, -⟩ := List.cons.inj hw
      exact .inl ⟨u, rfl⟩

namespace EndsExpression

theorem trimLeft_eq (hr : EndsExpression r) : trimLeft r = r := by
  have hvisible : ∀ c ∈ [',', ')', ';'], isBlank c = false := by decide
  rcases hr with rfl | ⟨c, hc, v, rfl⟩
  · rfl
  · exact List.dropWhile_cons_of_neg (by simp [hvisible c hc])

theorem not_prefix (hr : EndsExpression r) (hc : c ∉ [',', ')', ';']) : ¬[c] <+: r := by
  rintro ⟨w, rfl⟩
  rcases hr with hnil | ⟨e, he, v, hv⟩
  · cases hnil
  · exact hc ((List.cons.inj hv).1 ▸ he)

theorem append (hr : EndsExpression r) (hne : r ≠ []) (x : List Char) : EndsExpression (r ++ x) := by
  rcases hr with hnil | ⟨c, hc, hprefix⟩
  · exact absurd hnil hne
  · exact .inr ⟨c, hc, hprefix.trans (List.prefix_append r x)⟩

theorem expressionRun_eq (hr : EndsExpression r) : expressionRun {} r = .ok r := by
  have hends : ∀ c ∈ [',', ')', ';'], endsExpression c = true := by decide
  rw [expressionRun.eq_def]
  rcases hr with rfl | ⟨c, hc, v, rfl⟩
  · rfl
  · exact if_pos (by rw [hends c hc]; rfl)

end EndsExpression

/-! ### What one item does to the counts -/

theorem isZero_opened (d : Depths) (b : Bracket) : (d.opened b).isZero = false := by
  refine Bool.eq_false_iff.mpr fun h => ?_
  have hcount := (Depths.isZero_iff _).mp h b
  simp [Depths.opened] at hcount

theorem isZero_of_closed (h : d.closed? b = some e) : d.isZero = false := by
  refine Bool.eq_false_iff.mpr fun hzero => ?_
  unfold Depths.closed? at h
  rw [if_pos ((Depths.isZero_iff d).mp hzero b)] at h
  cases h

theorem expressionRun_plain (hc : IsPlainChar c) (hends : d.isZero = true → endsExpression c = false) :
    expressionRun d (c :: s) = expressionRun d s := by
  obtain ⟨hlt, hgt⟩ := hc.ne_angle
  have hgoes : ¬(d.isZero && endsExpression c) = true := by
    intro h
    obtain ⟨hzero, hc⟩ := Bool.and_eq_true_iff.mp h
    rw [hends hzero] at hc
    cases hc
  rw [expressionRun.eq_def]
  dsimp only
  rw [if_neg hgoes, if_neg (by simp [hc.not_quote]), if_neg hlt, if_neg hgt, hc.not_opener, hc.not_closer]

theorem expressionRun_literal (hl : IsLiteral q l) : expressionRun d (q :: (l ++ s)) = expressionRun d s := by
  have hgoes : endsExpression q = false := by
    rcases Bool.or_eq_true_iff.mp hl.1 with h | h
    · rw [eq_of_beq h]
      rfl
    · rw [eq_of_beq h]
      rfl
  rw [expressionRun.eq_def]
  dsimp only
  rw [if_neg (by simp [hgoes]), if_pos hl.1]
  split
  · rename_i rest hrest
    obtain rfl : s = rest := Option.some.inj ((skipLiteral?_append hl.2 s).symm.trans hrest)
    rfl
  · rename_i hrest
    cases (skipLiteral?_append hl.2 s).symm.trans hrest

theorem expressionRun_opener (hfirst : b = .angle → ¬['<'] <+: s) :
    expressionRun d (b.opener :: s) = expressionRun (d.opened b) s := by
  have hgoes : ¬(d.isZero && endsExpression b.opener) = true := by
    cases b
    all_goals simp [Bracket.opener, endsExpression]
  have hquote : ¬isQuote b.opener = true := by
    cases b
    all_goals decide
  rw [expressionRun.eq_def]
  dsimp only
  rw [if_neg hgoes, if_neg hquote]
  by_cases hb : b = .angle
  · subst hb
    rw [if_pos (show Bracket.angle.opener = '<' from rfl)]
    split
    · rename_i v
      exact absurd ⟨v, rfl⟩ (hfirst rfl)
    · rfl
  · have hlt : b.opener ≠ '<' := by
      cases b
      all_goals first | decide | exact absurd rfl hb
    have hgt : b.opener ≠ '>' := by
      cases b
      all_goals decide
    rw [if_neg hlt, if_neg hgt, Bracket.ofOpener?_opener]

theorem expressionRun_closer (hclosed : d.closed? b = some e) (hlast : b = .angle → ['>'] <+: s → 2 ≤ d.angle) :
    expressionRun d (b.closer :: s) = expressionRun e s := by
  have hquote : ¬isQuote b.closer = true := by
    cases b
    all_goals decide
  have hlt : b.closer ≠ '<' := by
    cases b
    all_goals decide
  rw [expressionRun.eq_def]
  dsimp only
  rw [if_neg (by simp [isZero_of_closed hclosed]), if_neg hquote, if_neg hlt]
  by_cases hb : b = .angle
  · subst hb
    rw [if_pos (show Bracket.angle.closer = '>' from rfl)]
    split
    · rename_i v hfew
      exact absurd (of_decide_eq_true hfew) (Nat.not_lt.mpr (hlast rfl ⟨v, rfl⟩))
    · rw [hclosed]
      rfl
  · have hgt : b.closer ≠ '>' := by
      cases b
      all_goals first | decide | exact absurd rfl hb
    have hopener : Bracket.ofOpener? b.closer = none := by
      cases b
      all_goals decide
    rw [if_neg hgt, hopener, Bracket.ofCloser?_closer]
    dsimp only
    rw [hclosed]

namespace ExpressionItem

theorem run_eq (h : ExpressionItem d w s e) : expressionRun d (w ++ s) = expressionRun e s := by
  cases h with
  | literal hl => exact expressionRun_literal hl
  | shiftLeft =>
      show expressionRun d ('<' :: '<' :: s) = _
      rw [expressionRun.eq_def]
      dsimp only
      rw [if_neg (by simp [endsExpression]), if_neg (by decide), if_pos rfl]
      rfl
  | shiftRight hfew =>
      show expressionRun d ('>' :: '>' :: s) = _
      rw [expressionRun.eq_def]
      dsimp only
      rw [if_neg (by simp [endsExpression]), if_neg (by decide), if_neg (by decide), if_pos rfl, decide_eq_true hfew]
      rfl
  | opens hfirst => exact expressionRun_opener hfirst
  | closes hclosed hlast => exact expressionRun_closer hclosed hlast
  | greater hnone hlast =>
      have hclosed : d.closed? .angle = none := if_pos hnone
      show expressionRun d ('>' :: s) = _
      rw [expressionRun.eq_def]
      dsimp only
      rw [if_neg (by simp [endsExpression]), if_neg (by decide), if_neg (by decide), if_pos rfl]
      split
      · rename_i v _
        exact absurd ⟨v, rfl⟩ hlast
      · rw [hclosed]
        rfl
  | plain hc hends => exact expressionRun_plain hc hends

/-- An item stays one in front of another text that begins with an angle bracket only where the first one does. -/
theorem of_next (h : ExpressionItem d w s e) (hs : ∀ c ∈ ['<', '>'], [c] <+: t → [c] <+: s) :
    ExpressionItem d w t e := by
  cases h with
  | literal hl => exact .literal hl
  | shiftLeft => exact .shiftLeft
  | shiftRight hfew => exact .shiftRight hfew
  | opens hfirst => exact .opens fun hb ht => hfirst hb (hs '<' (by decide) ht)
  | closes hclosed hlast => exact .closes hclosed fun hb ht => hlast hb (hs '>' (by decide) ht)
  | greater hnone hlast => exact .greater hnone fun ht => hlast (hs '>' (by decide) ht)
  | plain hc hends => exact .plain hc hends

end ExpressionItem

/-! ### Where an expression ends -/

theorem IsExpression.run_eq (h : IsExpression d t) (hr : EndsExpression r) : expressionRun d (t ++ r) = .ok r := by
  induction h with
  | nil => exact hr.expressionRun_eq
  | @item d e w s hw _ ih =>
      have hnext : ∀ c ∈ ['<', '>'], [c] <+: s ++ r → [c] <+: s := by
        intro c hc hprefix
        have hother : ∀ c ∈ ['<', '>'], c ∉ [',', ')', ';'] := by decide
        exact (singleton_prefix_append hprefix).resolve_right fun h => hr.not_prefix (hother c hc) h.2
      rw [List.append_assoc, (hw.of_next hnext).run_eq, ih]

/-- Wherever a reader goes on, it has taken one item. -/
theorem exists_isExpression (h : expressionRun d s = .ok r) :
    ∃ t, s = t ++ r ∧ IsExpression d t ∧ EndsExpression r := by
  fun_induction expressionRun d s with
  | case1 d hzero =>
      cases h
      obtain rfl : d = {} := eq_of_beq hzero
      exact ⟨[], rfl, .nil, .inl rfl⟩
  | case3 d c s hends =>
      cases h
      obtain ⟨hzero, hc⟩ := Bool.and_eq_true_iff.mp hends
      obtain rfl : d = {} := eq_of_beq hzero
      exact ⟨[], rfl, .nil, .inr ⟨c, by simpa [endsExpression, or_assoc] using hc, s, rfl⟩⟩
  | case4 d q s hends hquote rest hrest _ ih =>
      obtain ⟨t, rfl, ht, hr⟩ := ih h
      obtain ⟨l, rfl, hl⟩ := exists_literal_of_skipLiteral? hrest
      exact ⟨(q :: l) ++ t, by simp, .item (.literal ⟨hquote, hl⟩) ht, hr⟩
  | case6 d s hends hquote ih =>
      obtain ⟨t, rfl, ht, hr⟩ := ih h
      exact ⟨['<', '<'] ++ t, rfl, .item .shiftLeft ht, hr⟩
  | case7 d s hlone hends hquote ih =>
      obtain ⟨t, rfl, ht, hr⟩ := ih h
      have hfirst : ¬['<'] <+: t := by
        rintro ⟨v, rfl⟩
        exact hlone (v ++ r) rfl
      exact ⟨[Bracket.angle.opener] ++ t, rfl, .item (.opens fun _ => hfirst) ht, hr⟩
  | case8 d s hfew hends hquote hne ih =>
      obtain ⟨t, rfl, ht, hr⟩ := ih h
      exact ⟨['>', '>'] ++ t, rfl, .item (.shiftRight (of_decide_eq_true hfew)) ht, hr⟩
  | case9 d s hlone hends hquote hne ih =>
      obtain ⟨t, rfl, ht, hr⟩ := ih h
      have hmany : ['>'] <+: t → 2 ≤ d.angle := by
        rintro ⟨v, rfl⟩
        exact Nat.not_lt.mp fun hfew => hlone (v ++ r) rfl (decide_eq_true hfew)
      refine ⟨['>'] ++ t, rfl, ?_, hr⟩
      -- It closes a group if one is open.
      cases hclosed : d.closed? .angle with
      | some e =>
          rw [hclosed] at ht
          exact .item (.closes (b := .angle) hclosed fun _ => hmany) ht
      | none =>
          have hnone : d.angle = 0 := by
            unfold Depths.closed? at hclosed
            split at hclosed
            · assumption
            · cases hclosed
          rw [hclosed] at ht
          refine .item (.greater hnone fun hnext => ?_) ht
          have hmany := hmany hnext
          omega
  | case10 d c s hends hquote hlt hgt b hopener ih =>
      obtain ⟨t, rfl, ht, hr⟩ := ih h
      obtain rfl : b.opener = c := by simpa using List.find?_some hopener
      exact ⟨[b.opener] ++ t, rfl, .item (.opens fun hb => absurd (congrArg Bracket.opener hb) hlt) ht, hr⟩
  | case11 d c s hends hquote hlt hgt b hcloser hopener d' hclosed ih =>
      obtain ⟨t, rfl, ht, hr⟩ := ih h
      obtain rfl : b.closer = c := by simpa using List.find?_some hcloser
      exact ⟨[b.closer] ++ t, rfl, .item (.closes hclosed fun hb => absurd (congrArg Bracket.closer hb) hgt) ht, hr⟩
  | case13 d c s hends hquote hlt hgt hcloser hopener ih =>
      obtain ⟨t, rfl, ht, hr⟩ := ih h
      refine ⟨[c] ++ t, rfl, .item (.plain ⟨by simpa using hquote, hopener, hcloser⟩ fun hzero => ?_) ht, hr⟩
      rw [hzero] at hends
      simpa using hends
  | case2 | case5 | case12 => cases h

/-- An expression is read up to `r` if one stands in front of it and `r` ends it. -/
theorem expressionRun_eq_ok_iff :
    expressionRun d s = .ok r ↔ ∃ t, s = t ++ r ∧ IsExpression d t ∧ EndsExpression r := by
  refine ⟨exists_isExpression, ?_⟩
  rintro ⟨t, rfl, ht, hr⟩
  exact ht.run_eq hr

theorem expressionRun_suffix (h : expressionRun d s = .ok r) : r <:+ s := by
  obtain ⟨t, rfl, -⟩ := expressionRun_eq_ok_iff.mp h
  exact List.suffix_append t r

theorem endsExpression_of_expressionRun (h : expressionRun d s = .ok r) : EndsExpression r := by
  obtain ⟨_, -, -, hr⟩ := expressionRun_eq_ok_iff.mp h
  exact hr

/-- What follows the end of an expression is not read for it. -/
theorem expressionRun_append (h : expressionRun d s = .ok r) (hr : r ≠ []) (x : List Char) :
    expressionRun d (s ++ x) = .ok (r ++ x) := by
  obtain ⟨t, rfl, ht, hends⟩ := expressionRun_eq_ok_iff.mp h
  rw [List.append_assoc]
  exact ht.run_eq (hends.append hr x)

end Lexer

end HeaderReflection
