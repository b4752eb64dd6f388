import HeaderReflection.Proofs.Lexer.CommentedRuns

/-! # Brackets of accepted texts

Types and expressions count the brackets that are open, each of the four kinds by itself.  They end where all
counts are zero.

* A type or an expression that is accepted is balanced in each kind of bracket by itself: every closing
  bracket closes the last one of its kind that is still open, and none stays open (`Lexer.nested_by_kind`).
* The kinds are counted apart, so groups of different kinds may cross (`Lexer.groups_cross`).
* In a type curly brackets do not count (`Lexer.typeMark?`).  In an expression those in literals and the angle
  brackets of operators do not; `Lexer.significant` takes these away from the text, and needs for this the
  number of open angle brackets, since `>>` is an operator only where less than two are open.

The counts are compared with a stack.  Brackets of one kind only are nested just if counting them never goes
below zero and ends there (`Depths.pending?_ofKind`), so the counts are stacks, one for each kind. -/

namespace HeaderReflection

/-! ### Brackets and their nesting -/

/-- A bracket that opens or closes a group. -/
inductive BracketMark where
  | opens (b : Bracket)
  | closes (b : Bracket)
  deriving DecidableEq, Repr

namespace BracketMark

/-- The kind of the bracket. -/
def kind : BracketMark → Bracket
  | .opens b => b
  | .closes b => b

/-- The bracket that a character is. -/
def ofChar? (c : Char) : Option BracketMark :=
  match Bracket.ofOpener? c, Bracket.ofCloser? c with
  | some b, _ => some (.opens b)
  | none, some b => some (.closes b)
  | none, none => none

/-- The brackets of a text. -/
def ofText (s : List Char) : List BracketMark := s.filterMap ofChar?

/-- The brackets of one kind. -/
def ofKind (b : Bracket) (ms : List BracketMark) : List BracketMark := ms.filter (·.kind = b)

/-- The brackets that are open behind those that are read, the last one first, unless a bracket closes another one
than the last one. -/
def pending? : List Bracket → List BracketMark → Option (List Bracket)
  | stack, [] => some stack
  | stack, .opens b :: ms => pending? (b :: stack) ms
  | [], .closes _ :: _ => none
  | a :: stack, .closes b :: ms => if a = b then pending? stack ms else none

/-- Every closing bracket closes the last one that is still open, which is of its kind, and none stays open. -/
def IsMatched (ms : List BracketMark) : Prop := pending? [] ms = some []

instance (ms : List BracketMark) : Decidable (IsMatched ms) := inferInstanceAs (Decidable (_ = _))

end BracketMark

namespace Depths

open BracketMark

/-- The counts behind brackets, unless one of them closes a group of its kind where none is open. -/
def after? : Depths → List BracketMark → Option Depths
  | d, [] => some d
  | d, .opens b :: ms => (d.opened b).after? ms
  | d, .closes b :: ms =>
    match d.closed? b with
    | some d => d.after? ms
    | none => none

theorem eq_of_isZero {d : Depths} (h : d.isZero = true) : d = {} := eq_of_beq h

theorem of_opened (d : Depths) (a b : Bracket) : (d.opened a).of b = if b = a then d.of a + 1 else d.of b :=
  of_set d _ b a

theorem of_closed {d e : Depths} {a : Bracket} (h : d.closed? a = some e) (b : Bracket) :
    d.of b = if b = a then e.of a + 1 else e.of b := by
  unfold closed? at h
  split at h
  · cases h
  · rename_i hopen
    obtain rfl := Option.some.inj h
    rw [of_set, of_set, if_pos rfl]
    split
    · rename_i hab
      subst hab
      omega
    · rfl

/-- What is counted of one kind is a stack that holds this kind only. -/
theorem pending?_ofKind {d e : Depths} {ms : List BracketMark} (h : d.after? ms = some e) (b : Bracket) :
    pending? (List.replicate (d.of b) b) (ofKind b ms) = some (List.replicate (e.of b) b) := by
  induction ms generalizing d with
  | nil =>
      obtain rfl := Option.some.inj h
      rfl
  | cons m ms ih =>
      cases m with
      | opens a =>
          have hrest := ih (d := d.opened a) h
          rw [of_opened] at hrest
          by_cases hab : b = a
          · subst hab
            rw [if_pos rfl] at hrest
            have hkeep : ofKind b (.opens b :: ms) = .opens b :: ofKind b ms :=
              List.filter_cons_of_pos (decide_eq_true rfl)
            rw [hkeep]
            exact hrest
          · rw [if_neg hab] at hrest
            have hdrop : ofKind b (.opens a :: ms) = ofKind b ms :=
              List.filter_cons_of_neg (by simp [kind, Ne.symm hab])
            rw [hdrop]
            exact hrest
      | closes a =>
          unfold after? at h
          split at h
          · rename_i d' hclosed
            have hrest := ih h
            rw [of_closed hclosed]
            by_cases hab : b = a
            · subst hab
              have hkeep : ofKind b (.closes b :: ms) = .closes b :: ofKind b ms :=
                List.filter_cons_of_pos (decide_eq_true rfl)
              rw [if_pos rfl, hkeep, List.replicate_succ, pending?, if_pos rfl]
              exact hrest
            · have hdrop : ofKind b (.closes a :: ms) = ofKind b ms :=
                List.filter_cons_of_neg (by simp [kind, Ne.symm hab])
              rw [if_neg hab, hdrop]
              exact hrest
          · cases h

theorem isMatched_ofKind {ms : List BracketMark} (h : ({} : Depths).after? ms = some {}) (b : Bracket) :
    IsMatched (ofKind b ms) := by
  have hnest := pending?_ofKind h b
  cases b
  all_goals exact hnest

end Depths

namespace Lexer

open Text BracketMark

variable {d : Depths} {s r : List Char}

/-! ### Types -/

/-- The bracket that a character of a type is. -/
def typeMark? (c : Char) : Option BracketMark :=
  match (Bracket.ofOpener? c).filter (· ≠ .curly), (Bracket.ofCloser? c).filter (· ≠ .curly) with
  | some b, _ => some (.opens b)
  | none, some b => some (.closes b)
  | none, none => none

theorem ofCloser?_of_ofOpener? {c : Char} {b : Bracket} (h : Bracket.ofOpener? c = some b) :
    Bracket.ofCloser? c = none := by
  obtain rfl : b.opener = c := by simpa using List.find?_some h
  cases b
  all_goals decide

theorem ofKind_typeMarks {b : Bracket} (hb : b ≠ .curly) (s : List Char) :
    ofKind b (s.filterMap typeMark?) = ofKind b (ofText s) := by
  unfold ofKind ofText
  rw [List.filter_filterMap, List.filter_filterMap]
  refine congrArg (List.filterMap · s) (funext fun c => ?_)
  unfold typeMark? ofChar?
  cases hopener : Bracket.ofOpener? c with
  | some a =>
      rw [ofCloser?_of_ofOpener? hopener]
      by_cases ha : a = .curly
      · simp [Option.filter, ha, kind, hb.symm]
      · simp [Option.filter, ha]
  | none =>
      cases Bracket.ofCloser? c with
      | some a =>
          by_cases ha : a = .curly
          · simp [Option.filter, ha, kind, hb.symm]
          · simp [Option.filter, ha]
      | none => rfl

theorem IsTypeRun.closes {w : List Char} (h : IsTypeRun d w) : d.after? (w.filterMap typeMark?) = some {} := by
  induction h with
  | nil hzero => exact congrArg some (Depths.eq_of_isZero hzero)
  | @cons d e c s hc _ ih =>
      cases hc with
      | @opens b hopener =>
          have hmark : typeMark? c = some (.opens b) := by
            unfold typeMark?
            rw [hopener]
          rw [List.filterMap_cons_some hmark]
          exact ih
      | @closes _ b hopener hcloser hclosed =>
          have hmark : typeMark? c = some (.closes b) := by
            unfold typeMark?
            rw [hopener, hcloser]
          rw [List.filterMap_cons_some hmark, Depths.after?, hclosed]
          exact ih
      | plain hopener hcloser =>
          have hmark : typeMark? c = none := by
            unfold typeMark?
            rw [hopener, hcloser]
          rw [List.filterMap_cons_none hmark]
          exact ih

theorem exists_skipWords {words : List (List Char)} (hwords : ∀ w ∈ words, ∀ c ∈ w, typeMark? c = none)
    (s : List Char) : ∃ t, s = t ++ skipWords words s ∧ ∀ c ∈ t, typeMark? c = none := by
  have hblank : ∀ s, ∃ u, s = u ++ trimLeft s ∧ ∀ c ∈ u, typeMark? c = none := by
    intro s
    obtain ⟨u, hs, hu⟩ := exists_trimLeft s
    refine ⟨u, hs, fun c hc => ?_⟩
    unfold typeMark?
    rw [ofOpener?_of_isBlank (hu c hc), ofCloser?_of_isBlank (hu c hc)]
    rfl
  fun_induction skipWords words s with
  | case1 s rest hfound _ ih =>
      obtain ⟨w, hw, hword⟩ := List.exists_of_findSome?_eq_some hfound
      obtain ⟨u, hs, hu⟩ := hblank s
      obtain ⟨t, ht, hplain⟩ := ih
      refine ⟨u ++ (w ++ t), ?_, ?_⟩
      · rw [List.append_assoc, List.append_assoc, ← ht, ← eq_append_of_dropWord? hword]
        exact hs
      · exact List.forall_mem_append.mpr ⟨hu, List.forall_mem_append.mpr ⟨hwords w hw, hplain⟩⟩
  | case2 s => exact hblank s
  | case3 s => exact hblank s

/-- The text of a type that is accepted has closed all its groups. -/
theorem typeText_closes {a : List Char} (h : typeText.answer s = (.ok a, r)) :
    ∃ t, trimLeft s = t ++ r ∧ a = Text.trim t ∧ ({} : Depths).after? (t.filterMap typeMark?) = some {} := by
  obtain ⟨rest, hrun, rfl, rfl⟩ := answer_typeText_eq_ok.mp h
  have hqualifiers : ∀ w ∈ typeQualifiers, ∀ c ∈ w, typeMark? c = none := by decide
  have htrailers : ∀ w ∈ typeTrailers, ∀ c ∈ w, typeMark? c = none := by decide
  obtain ⟨v, hv, hfront⟩ := exists_skipWords hqualifiers (trimLeft s)
  obtain ⟨w, hw, hwrun, -⟩ := typeRun_eq_ok.mp hrun
  obtain ⟨x, hx, hbehind⟩ := exists_skipWords htrailers rest
  have hwhole : trimLeft s = (v ++ w ++ x) ++ skipWords typeTrailers rest := by
    rw [List.append_assoc, ← hx, List.append_assoc, ← hw]
    exact hv
  have hplain : ∀ {u : List Char}, (∀ c ∈ u, typeMark? c = none) → u.filterMap typeMark? = [] :=
    List.filterMap_eq_nil_iff.mpr
  refine ⟨v ++ w ++ x, hwhole, ?_, ?_⟩
  · rw [hwhole, taken_append]
  · rw [List.filterMap_append, List.filterMap_append, hplain hfront, hplain hbehind]
    simpa using hwrun.closes

/-! ### Expressions -/

/-- The characters of an expression that are neither part of a literal nor of an operator, with `n` angle brackets
open.  The operators are `<<`, `>>` unless two angle brackets are open, and a `>` that closes nothing. -/
def significant (n : Nat) (s : List Char) : List Char :=
  match s with
  | [] => []
  | c :: s =>
    if isQuote c then
      match h : skipLiteral? c s with
      | some rest =>
        have := (skipLiteral?_suffix h).2
        significant n rest
      | none => []
    else if c = '<' then
      match s with
      | '<' :: s => significant n s
      | s => '<' :: significant (n + 1) s
    else if c = '>' then
      match s, decide (n < 2) with
      | '>' :: s, true => significant n s
      | s, _ => if n = 0 then significant n s else '>' :: significant (n - 1) s
    else c :: significant n s
termination_by s.length
decreasing_by all_goals simp only [List.length_cons]; omega

section significant

variable {n : Nat} {c : Char} {t : List Char}

theorem significant_nil : significant n [] = [] := by
  rw [significant.eq_def]

theorem significant_literal {l : List Char} (hc : isQuote c = true) (hl : skipLiteral? c l = some []) :
    significant n (c :: (l ++ t)) = significant n t := by
  rw [significant.eq_def]
  dsimp only
  rw [if_pos hc]
  split
  · rename_i rest hrest
    obtain rfl : t = rest := Option.some.inj ((skipLiteral?_append hl t).symm.trans hrest)
    rfl
  · rename_i hrest
    cases (skipLiteral?_append hl t).symm.trans hrest

theorem significant_shift : significant n ('<' :: '<' :: t) = significant n t := by
  rw [significant.eq_def]
  dsimp only
  rw [if_neg (by decide), if_pos rfl]
  rfl

theorem significant_angle (ht : ¬['<'] <+: t) : significant n ('<' :: t) = '<' :: significant (n + 1) t := by
  rw [significant.eq_def]
  dsimp only
  rw [if_neg (by decide), if_pos rfl]
  split
  · exact absurd ⟨_, rfl⟩ ht
  · rfl

theorem significant_shiftRight (hn : n < 2) : significant n ('>' :: '>' :: t) = significant n t := by
  rw [significant.eq_def]
  dsimp only
  rw [if_neg (by decide), if_neg (by decide), if_pos rfl, decide_eq_true hn]
  rfl

theorem significant_closeAngle (ht : ['>'] <+: t → 2 ≤ n) :
    significant n ('>' :: t) = if n = 0 then significant n t else '>' :: significant (n - 1) t := by
  rw [significant.eq_def]
  dsimp only
  rw [if_neg (by decide), if_neg (by decide), if_pos rfl]
  split
  · rename_i s hfew
    have hmany := ht ⟨s, rfl⟩
    have hfew := of_decide_eq_true hfew
    omega
  · rfl

theorem significant_other (hquote : isQuote c = false) (hlt : c ≠ '<') (hgt : c ≠ '>') :
    significant n (c :: t) = c :: significant n t := by
  rw [significant.eq_def]
  dsimp only
  rw [if_neg (by simp [hquote]), if_neg hlt, if_neg hgt]

theorem significant_opener {b : Bracket} (hfirst : b = .angle → ¬['<'] <+: t) :
    significant d.angle (b.opener :: t) = b.opener :: significant (d.opened b).angle t := by
  cases b with
  | angle => exact significant_angle (hfirst rfl)
  | round | square | curly => exact significant_other rfl (by decide) (by decide)

theorem significant_closer {b : Bracket} {e : Depths} (hclosed : d.closed? b = some e)
    (hlast : b = .angle → ['>'] <+: t → 2 ≤ d.angle) :
    significant d.angle (b.closer :: t) = b.closer :: significant e.angle t := by
  have hcount := Depths.of_closed hclosed .angle
  cases b with
  | angle =>
      have hcount : d.angle = e.angle + 1 := hcount
      have hclose : significant d.angle ('>' :: t) = _ := significant_closeAngle (hlast rfl)
      rw [if_neg (by omega), hcount, Nat.add_sub_cancel] at hclose
      rw [hcount]
      exact hclose
  | round | square | curly =>
      have hcount : d.angle = e.angle := hcount
      rw [hcount]
      exact significant_other rfl (by decide) (by decide)

theorem significant_blank_append {u : List Char} (hu : ∀ c ∈ u, isBlank c = true) :
    significant n (u ++ t) = u ++ significant n t := by
  induction u with
  | nil => rfl
  | cons c u ih =>
      obtain ⟨hc, hu⟩ := List.forall_mem_cons.mp hu
      have hvisible : ∀ d ∈ ['"', '\'', '<', '>'], c ≠ d := by
        rintro d hd rfl
        have hnone : ∀ d ∈ ['"', '\'', '<', '>'], isBlank d = false := by decide
        rw [hnone c hd] at hc
        cases hc
      have hquote : isQuote c = false := by
        simpa [isQuote] using ⟨hvisible '"' (by decide), hvisible '\'' (by decide)⟩
      rw [List.cons_append, significant_other hquote (hvisible '<' (by decide)) (hvisible '>' (by decide)), ih hu]
      rfl

end significant

/-- Reading the text with these counts, every closing bracket finds an open one of its kind, what ends an
expression stands inside brackets, and nothing stays open. -/
inductive Settles : Depths → List Char → Prop where
  | nil : Settles {} []
  | opens {d : Depths} {b : Bracket} {s : List Char} (h : Settles (d.opened b) s) : Settles d (b.opener :: s)
  | closes {d e : Depths} {b : Bracket} {s : List Char} (hb : d.closed? b = some e) (h : Settles e s) :
      Settles d (b.closer :: s)
  | other {d : Depths} {c : Char} {s : List Char} (hc : ofChar? c = none)
      (hends : d.isZero = true → endsExpression c = false) (h : Settles d s) : Settles d (c :: s)

/-- What is significant of an expression settles. -/
theorem IsExpression.settles {t : List Char} (h : IsExpression d t) : Settles d (significant d.angle t) := by
  induction h with
  | nil =>
      rw [significant_nil]
      exact .nil
  | item hw _ ih =>
      cases hw with
      | literal hl =>
          rw [List.cons_append, significant_literal hl.1 hl.2]
          exact ih
      | shiftLeft =>
          rw [List.cons_append, List.singleton_append, significant_shift]
          exact ih
      | shiftRight hfew =>
          rw [List.cons_append, List.singleton_append, significant_shiftRight hfew]
          exact ih
      | opens hfirst =>
          rw [List.singleton_append, significant_opener hfirst]
          exact .opens ih
      | closes hclosed hlast =>
          rw [List.singleton_append, significant_closer hclosed hlast]
          exact .closes hclosed ih
      | greater hnone hlast =>
          rw [List.singleton_append, significant_closeAngle fun h => absurd h hlast, if_pos hnone]
          exact ih
      | plain hc hends =>
          rw [List.singleton_append, significant_other hc.not_quote hc.ne_angle.1 hc.ne_angle.2]
          refine .other ?_ hends ih
          unfold ofChar?
          rw [hc.not_opener, hc.not_closer]

theorem ofChar?_opener (b : Bracket) : ofChar? b.opener = some (.opens b) := by
  cases b
  all_goals decide

theorem ofChar?_closer (b : Bracket) : ofChar? b.closer = some (.closes b) := by
  cases b
  all_goals decide

theorem Settles.after? (h : Settles d s) : d.after? (ofText s) = some {} := by
  unfold ofText
  induction h with
  | nil => rfl
  | @opens d b s _ ih =>
      rw [List.filterMap_cons_some (ofChar?_opener b)]
      exact ih
  | @closes d e b s hb _ ih =>
      rw [List.filterMap_cons_some (ofChar?_closer b), Depths.after?, hb]
      exact ih
  | other hc _ _ ih =>
      rw [List.filterMap_cons_none hc]
      exact ih

/-- The text of an expression that is accepted settles. -/
theorem expression_settles {a : List Char} (h : expression.answer s = (.ok a, r)) :
    ∃ t, trimLeft s = t ++ r ∧ a = Text.trim t ∧ Settles {} (significant 0 t) := by
  obtain ⟨hrun, rfl⟩ := answer_expression_eq_ok.mp h
  obtain ⟨t, ht, hexpression, -⟩ := expressionRun_eq_ok_iff.mp hrun
  exact ⟨t, ht, by rw [ht, taken_append], hexpression.settles⟩

/-! ### Nests -/

/-- In the text of every type and every expression that is accepted, each kind of bracket is nested by itself. -/
theorem nested_by_kind :
    (∀ s a r, typeText.answer s = (.ok a, r) →
      ∃ t, trimLeft s = t ++ r ∧ a = Text.trim t ∧ ∀ b ≠ .curly, IsMatched (ofKind b (ofText t))) ∧
    ∀ s a r, expression.answer s = (.ok a, r) →
      ∃ t, trimLeft s = t ++ r ∧ a = Text.trim t ∧ ∀ b, IsMatched (ofKind b (ofText (significant 0 t))) := by
  constructor
  · intro s a r h
    obtain ⟨t, hs, ha, hclosed⟩ := typeText_closes h
    refine ⟨t, hs, ha, fun b hb => ?_⟩
    rw [← ofKind_typeMarks hb]
    exact Depths.isMatched_ofKind hclosed b
  · intro s a r h
    obtain ⟨t, hs, ha, hsettles⟩ := expression_settles h
    exact ⟨t, hs, ha, Depths.isMatched_ofKind hsettles.after?⟩

theorem nested_by_kind_operators :
    (∃ t, "const std::map<int, (T)> & x".toList = t ++ "x".toList ∧ "const std::map<int, (T)> &".toList = Text.trim t ∧
      ∀ b ≠ .curly, IsMatched (ofKind b (ofText t))) ∧
    ∃ t, "f<a[1 << 2]>(p->x, \")\"), y".toList = t ++ ", y".toList ∧
      "f<a[1 << 2]>(p->x, \")\")".toList = Text.trim t ∧ ∀ b, IsMatched (ofKind b (ofText (significant 0 t))) := by
  have htype : typeText.answer "const std::map<int, (T)> & x".toList =
      (.ok "const std::map<int, (T)> &".toList, "x".toList) := by
    rw [answer_typeText]
    cbv
  have hexpression : expression.answer "f<a[1 << 2]>(p->x, \")\"), y".toList =
      (.ok "f<a[1 << 2]>(p->x, \")\")".toList, ", y".toList) := by
    rw [answer_expression]
    cbv
  exact ⟨nested_by_kind.1 _ _ _ htype, nested_by_kind.2 _ _ _ hexpression⟩

/-- Groups of different kinds may cross in a type and in an expression, and in a type a curly bracket may close
nothing. -/
theorem groups_cross :
    (¬∀ s a r, typeText.answer s = (.ok a, r) →
      ∀ t, trimLeft s = t ++ r → IsMatched ((ofText t).filter (·.kind ≠ .curly))) ∧
    (¬∀ s a r, expression.answer s = (.ok a, r) →
      ∀ t, trimLeft s = t ++ r → IsMatched (ofText (significant 0 t))) ∧
    ¬∀ s a r, typeText.answer s = (.ok a, r) →
      ∀ t, trimLeft s = t ++ r → IsMatched (ofKind .curly (ofText t)) := by
  refine ⟨fun h => ?_, fun h => ?_, fun h => ?_⟩
  · have hanswer : typeText.answer "([)] x".toList = (.ok "([)]".toList, "x".toList) := by
      rw [answer_typeText]
      cbv
    exact absurd (h _ _ _ hanswer "([)] ".toList rfl) (by decide)
  · have hanswer : expression.answer "([)]".toList = (.ok "([)]".toList, []) := by
      rw [answer_expression]
      cbv
    have hnest := h _ _ _ hanswer "([)]".toList rfl
    have hsignificant : significant 0 "([)]".toList = "([)]".toList := by
      cbv
    rw [hsignificant] at hnest
    exact absurd hnest (by decide)
  · have hanswer : typeText.answer "a\x7d x".toList = (.ok "a\x7d".toList, "x".toList) := by
      rw [answer_typeText]
      cbv
    exact absurd (h _ _ _ hanswer "a\x7d ".toList rfl) (by decide)

end Lexer

end HeaderReflection
