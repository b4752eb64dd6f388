import HeaderReflection.Lexer.Group
import HeaderReflection.Proofs.Lexer.TypeRuns
import HeaderReflection.Proofs.Lexer.Yields

/-! # What lexers take

A lexer that answers takes a text away in front and leaves the rest.  `m.Takes P` says that `P` holds of the
text that `m` takes and of its answer.  It is proved along the way in which a lexer is put together:

* of two lexers in a row, what the second one takes stands behind what the first one takes (`Takes.bind`), and
  `P` is shown of both texts together;
* the steps of a repetition extend what it has taken so far, which is its invariant (`Takes.iterate`);
* what the smallest lexers take is said of each of them: blanks, literals (`takes_swallow`), identifiers
  (`takes_identifier`), groups (`takes_balanced`), types (`takes_typeText`).

Where only an answer matters and the text that it was found in, `m.Finds P` says that `P` holds of the whole
text and of the answer.  A text that something is found in may get longer at both ends, which is what makes
this form easier to use than the other one where most of the text does not matter. -/

namespace HeaderReflection

/-- A property of the characters of a text is decided from these alone, not from all characters that there are. -/
instance Text.decidableForallMem (p : Char → Prop) [DecidablePred p] (s : List Char) : Decidable (∀ c ∈ s, p c) :=
  List.decidableBAll p s

namespace Lexer

open Text

/-! ### Texts that are taken -/

variable {α β : Type} {P : List Char → α → Prop} {Q : List Char → β → Prop}

/-- What a lexer takes in front of a text, and what it answers, have a property. -/
def Takes (m : Lexer α) (P : List Char → α → Prop) : Prop :=
  ∀ s a r, m.answer s = (.ok a, r) → ∃ t, s = t ++ r ∧ P t a

namespace Takes

theorem mono {m : Lexer α} {R : List Char → α → Prop} (hm : m.Takes P) (h : ∀ t a, P t a → R t a) :
    m.Takes R := by
  intro s a r hs
  obtain ⟨t, ht, hP⟩ := hm s a r hs
  exact ⟨t, ht, h t a hP⟩

theorem yields {m : Lexer α} {Y : α → Prop} (hm : m.Takes P) (h : ∀ t a, P t a → Y a) : m.Yields Y := by
  intro s a r hs
  obtain ⟨t, -, hP⟩ := hm s a r hs
  exact h t a hP

theorem pure {a : α} (ha : P [] a) : Takes (Pure.pure a) P := by
  intro s b r h
  cases h
  exact ⟨[], rfl, ha⟩

theorem throw (e : Cause) : Takes (throw e : Lexer α) P := by
  intro s a r h
  cases h

theorem bind {m : Lexer α} {f : α → Lexer β} (hm : m.Takes P)
    (hf : ∀ t a, P t a → (f a).Takes fun u b => Q (t ++ u) b) : Takes (m >>= f) Q := by
  intro s b r h
  obtain ⟨a, s', hfirst, hsecond⟩ := bind_answer_eq_ok.mp h
  obtain ⟨t, rfl, ha⟩ := hm s a s' hfirst
  obtain ⟨u, rfl, hb⟩ := hf t a ha s' b r hsecond
  exact ⟨t ++ u, (List.append_assoc t u r).symm, hb⟩

theorem throw_bind (e : Cause) {f : α → Lexer β} : Takes (MonadExcept.throw e >>= f) Q :=
  bind (throw (P := fun _ _ => False) e) fun _ _ h => h.elim

theorem ite {c : Prop} [Decidable c] {m n : Lexer α} (hm : c → m.Takes P) (hn : ¬c → n.Takes P) :
    Takes (if c then m else n) P := by
  split
  · rename_i hc
    exact hm hc
  · rename_i hc
    exact hn hc

/-- A step extends the text that the repetition has taken so far.  The repetition ends with a step that is
done, or with one that takes nothing. -/
theorem iterate {step : α → Lexer (ForInStep α)} {R : List Char → α → Prop}
    (hyield : ∀ t x, R t x → (step x).Takes fun u o =>
      match o with
      | .yield y => R (t ++ u) y ∧ (u = [] → P t y)
      | .done y => P (t ++ u) y)
    {x : α} (hx : R [] x) : (Lexer.iterate step x).Takes P := by
  have hrun : ∀ t x s, R t x → ∀ y r, iterateOn step x s = (.ok y, r) → ∃ u, s = u ++ r ∧ P (t ++ u) y := by
    intro t x s
    fun_induction iterateOn step x s generalizing t with
    | case1 x s z w hz =>
        intro hx y r h
        cases h
        exact hyield t x hx s _ _ hz
    | case2 x s z w hz _ ih =>
        intro hx y r h
        obtain ⟨u, rfl, hu, _⟩ := hyield t x hx s _ _ hz
        obtain ⟨v, rfl, hv⟩ := ih (t ++ u) hu y r h
        exact ⟨u ++ v, (List.append_assoc u v r).symm, by rwa [← List.append_assoc]⟩
    | case3 x s z w hz hlen =>
        intro hx y r h
        cases h
        obtain ⟨u, rfl, _, hu⟩ := hyield t x hx s _ _ hz
        obtain rfl : u = [] := by
          refine List.eq_nil_iff_length_eq_zero.mpr ?_
          rw [List.length_append] at hlen
          omega
        exact ⟨[], rfl, by simpa using hu rfl⟩
    | case4 x s e w hz =>
        intro _ y r h
        cases h
  intro s y r h
  exact hrun [] x s hx y r h

end Takes

/-! ### What is found in a text -/

/-- The text that a lexer is given, and what it answers, have a property. -/
def Finds (m : Lexer α) (P : List Char → α → Prop) : Prop :=
  ∀ s a r, m.answer s = (.ok a, r) → P s a

namespace Finds

theorem of_eval {m : Lexer α} (hm : m.Finds P) {s : List Char} {a : α} (h : m.eval s = .ok a) : P s a := by
  refine hm s a (m.answer s).2 ?_
  rw [← h]
  rfl

/-- An answer that a lexer gives on every text is found in every text. -/
theorem of_yields {m : Lexer α} {Y : α → Prop} (hm : m.Yields Y) (h : ∀ s a, Y a → P s a) : m.Finds P :=
  fun s a r hs => h s a (hm s a r hs)

theorem bind {m : Lexer α} {f : α → Lexer β} (hm : m.Takes P)
    (hf : ∀ t a, P t a → (f a).Finds fun s b => Q (t ++ s) b) : Finds (m >>= f) Q := by
  intro s b r h
  obtain ⟨a, s', hfirst, hsecond⟩ := bind_answer_eq_ok.mp h
  obtain ⟨t, rfl, ha⟩ := hm s a s' hfirst
  exact hf t a ha s' b r hsecond

theorem throw_bind (e : Cause) {f : α → Lexer β} : Finds (MonadExcept.throw e >>= f) Q :=
  bind (Takes.throw (P := fun _ _ => False) e) fun _ _ h => h.elim

theorem ite {c : Prop} [Decidable c] {m n : Lexer α} (hm : c → m.Finds P) (hn : ¬c → n.Finds P) :
    Finds (if c then m else n) P := by
  split
  · rename_i hc
    exact hm hc
  · rename_i hc
    exact hn hc

end Finds

/-! ### The smallest lexers -/

theorem isBlankText_append {b c : List Char} (hb : isBlankText b = true) (hc : isBlankText c = true) :
    isBlankText (b ++ c) = true := by
  unfold isBlankText
  rw [List.all_append, Bool.and_eq_true]
  exact ⟨hb, hc⟩

theorem exists_blank_trimLeft (s : List Char) : ∃ b, s = b ++ trimLeft s ∧ isBlankText b = true := by
  obtain ⟨b, hs, hb⟩ := exists_trimLeft s
  exact ⟨b, hs, List.all_eq_true.mpr hb⟩

theorem takes_trim : Lexer.trim.Takes fun t _ => isBlankText t = true := by
  intro s a r h
  cases h
  exact exists_blank_trimLeft s

theorem takes_looking (literal : List Char) : (looking literal).Takes fun t _ => isBlankText t = true := by
  intro s a r h
  cases h
  exact exists_blank_trimLeft s

theorem answer_swallowBy (f : List Char → Option (List Char)) (s : List Char) :
    (swallowBy f).answer s = match f (trimLeft s) with
      | some rest => (.ok true, rest)
      | none => (.ok false, trimLeft s) := by
  show (match f (trimLeft s) with | _ => _ : Lexer Bool).answer (trimLeft s) = _
  cases f (trimLeft s) with
  | none => rfl
  | some rest => rfl

theorem takes_swallowBy {f : List Char → Option (List Char)} {W : List Char → Prop}
    (hf : ∀ s r, f s = some r → ∃ w, s = w ++ r ∧ W w) :
    (swallowBy f).Takes fun t b => ∃ u w, t = u ++ w ∧ isBlankText u = true ∧
      if b then W w else w = [] := by
  intro s b r h
  obtain ⟨u, hs, hu⟩ := exists_blank_trimLeft s
  rw [answer_swallowBy] at h
  cases hcase : f (trimLeft s) with
  | none =>
      rw [hcase] at h
      cases h
      exact ⟨u, hs, u, [], (List.append_nil u).symm, hu, rfl⟩
  | some rest =>
      rw [hcase] at h
      cases h
      obtain ⟨w, hw, hW⟩ := hf _ _ hcase
      refine ⟨u ++ w, ?_, u, w, rfl, hu, hW⟩
      rw [List.append_assoc, ← hw, ← hs]

theorem takes_swallow (literal : List Char) :
    (swallow literal).Takes fun t b => ∃ u, isBlankText u = true ∧ t = u ++ if b then literal else [] := by
  refine (takes_swallowBy (W := (· = literal)) fun s r h => ?_).mono ?_
  · exact ⟨literal, dropLiteral?_eq_some.mp h, rfl⟩
  · rintro t b ⟨u, w, rfl, hu, hw⟩
    refine ⟨u, hu, congrArg (u ++ ·) ?_⟩
    cases b with
    | true => exact hw
    | false => exact hw

theorem takes_swallowWord (word : List Char) :
    (swallowWord word).Takes fun t b => ∃ u, isBlankText u = true ∧ t = u ++ if b then word else [] := by
  refine (takes_swallowBy (W := (· = word)) fun s r h => ?_).mono ?_
  · exact ⟨word, eq_append_of_dropWord? h, rfl⟩
  · rintro t b ⟨u, w, rfl, hu, hw⟩
    refine ⟨u, hu, congrArg (u ++ ·) ?_⟩
    cases b with
    | true => exact hw
    | false => exact hw

theorem takes_missing (what : String) : (missing what : Lexer α).Takes P := by
  intro s a r h
  cases h

theorem takes_expect (literal : List Char) :
    (expect literal).Takes fun t _ => ∃ u, isBlankText u = true ∧ t = u ++ literal := by
  refine .bind (takes_swallow literal) fun t b ht => ?_
  cases b with
  | true => exact .pure (by simpa using ht)
  | false => exact takes_missing _

/-- A run of identifier characters. -/
def IsWord (w : List Char) : Prop := w ≠ [] ∧ ∀ c ∈ w, isIdentifierChar c = true

theorem answer_identifier (s : List Char) :
    identifier.answer s =
      if ((trimLeft s).takeWhile isIdentifierChar).isEmpty then
        (.error (.expected "identifier" (String.ofList (trimLeft s))), trimLeft s)
      else (.ok ((trimLeft s).takeWhile isIdentifierChar), (trimLeft s).dropWhile isIdentifierChar) := by
  have hdrop := @List.drop_left _ ((trimLeft s).takeWhile isIdentifierChar)
    ((trimLeft s).dropWhile isIdentifierChar)
  rw [List.takeWhile_append_dropWhile] at hdrop
  rw [← hdrop]
  show (if _ then _ else _ : Lexer _).answer (trimLeft s) = _
  split
  · rfl
  · rfl

theorem takes_identifier :
    identifier.Takes fun t name => IsWord name ∧ ∃ u, isBlankText u = true ∧ t = u ++ name := by
  intro s a r h
  obtain ⟨u, hs, hu⟩ := exists_blank_trimLeft s
  rw [answer_identifier] at h
  split at h
  · cases h
  · rename_i hne
    cases h
    have hword := List.takeWhile_append_dropWhile (p := isIdentifierChar) (l := trimLeft s)
    refine ⟨u ++ (trimLeft s).takeWhile isIdentifierChar, ?_, ⟨?_, ?_⟩, u, hu, rfl⟩
    · rw [List.append_assoc, hword, ← hs]
    · exact fun hnil => hne (List.isEmpty_iff.mpr hnil)
    · exact List.all_eq_true.mp List.all_takeWhile

/-! ### Groups -/

theorem groupRun_closes {b : Bracket} {level : Nat} {quote : Option Char} {last : Char}
    {s inner rest : List Char} (h : groupRun b level quote last s = some (inner, rest)) (r : List Char) :
    groupRun b level quote last (inner ++ b.closer :: r) = some (inner, r) := by
  induction s generalizing level quote last inner with
  | nil => cases h
  | cons c s ih =>
      -- A character inside the group is the first of the inside, and the run goes on behind it.
      have onward : ∀ {level quote},
          (groupRun b level quote c s).map (fun p => (c :: p.1, p.2)) = some (inner, rest) →
          ∃ i, inner = c :: i ∧ groupRun b level quote c (i ++ b.closer :: r) = some (i, r) := by
        intro level quote e
        obtain ⟨⟨i, t⟩, hrun, e⟩ := Option.map_eq_some_iff.mp e
        obtain ⟨rfl, rfl⟩ := Prod.mk.inj e
        exact ⟨i, rfl, ih hrun⟩
      simp only [groupRun] at h
      cases quote with
      | some q =>
          obtain ⟨i, rfl, hi⟩ := onward h
          simp [groupRun, hi]
      | none =>
          dsimp only at h
          split at h
          · rename_i hquote
            obtain ⟨i, rfl, hi⟩ := onward h
            simp [groupRun, hquote, hi]
          · rename_i hquote
            split at h
            · rename_i hopener
              obtain ⟨i, rfl, hi⟩ := onward h
              simp only [List.cons_append, groupRun, if_neg hquote, if_pos hopener, hi, Option.map_some]
            · rename_i hopener
              split at h
              · rename_i hcloser
                split at h
                · rename_i hlevel
                  obtain ⟨rfl, rfl⟩ := Prod.mk.inj (Option.some.inj h)
                  rw [hcloser] at hquote hopener
                  simp [groupRun, hquote, hopener, hlevel]
                · rename_i hlevel
                  obtain ⟨i, rfl, hi⟩ := onward h
                  simp only [List.cons_append, groupRun, if_neg hquote, if_neg hopener, if_pos hcloser,
                    if_neg hlevel, hi, Option.map_some]
              · rename_i hcloser
                obtain ⟨i, rfl, hi⟩ := onward h
                simp only [List.cons_append, groupRun, if_neg hquote, if_neg hopener, if_neg hcloser, hi,
                  Option.map_some]

/-- The text stands between a bracket and the one that closes it. -/
def IsInside (b : Bracket) (inner : List Char) : Prop :=
  groupRun b 1 none b.opener (inner ++ [b.closer]) = some (inner, [])

theorem answer_balanced (b : Bracket) (s : List Char) :
    (balanced b).answer s = match trimLeft s with
      | [] => (.error (.expected b.opener.toString ""), [])
      | c :: v =>
        if c = b.opener then
          match groupRun b 1 none c v with
          | some (inner, rest) => (.ok inner, rest)
          | none => (.error (.missingCloser b.closer), c :: v)
        else (.error (.expected b.opener.toString (String.ofList (c :: v))), c :: v) := by
  show (match trimLeft s with | _ => _ : Lexer (List Char)).answer (trimLeft s) = _
  cases trimLeft s with
  | nil => rfl
  | cons c v =>
      by_cases hc : c = b.opener
      · simp only [hc, if_true, ne_eq, not_true, if_false]
        cases groupRun b 1 none b.opener v with
        | none => rfl
        | some p => rfl
      · simp only [hc, if_false, ne_eq, not_false_eq_true, if_true]
        rfl

/-- What stands between brackets is taken as a group, whatever follows it. -/
theorem IsInside.answer_balanced {b : Bracket} {inner : List Char} (h : IsInside b inner) (r : List Char) :
    (balanced b).answer (b.opener :: (inner ++ b.closer :: r)) = (.ok inner, r) := by
  have htrim : trimLeft (b.opener :: (inner ++ b.closer :: r)) = b.opener :: (inner ++ b.closer :: r) := by
    cases b <;> rfl
  rw [Lexer.answer_balanced, htrim]
  simp only [if_true, groupRun_closes h]

/-- A group is taken with its brackets. -/
theorem takes_balanced (b : Bracket) :
    (balanced b).Takes fun t inner =>
      ∃ u, isBlankText u = true ∧ IsInside b inner ∧ t = u ++ (b.opener :: inner ++ [b.closer]) := by
  intro s inner r h
  obtain ⟨u, hs, hu⟩ := exists_blank_trimLeft s
  rw [answer_balanced] at h
  cases htext : trimLeft s with
  | nil =>
      rw [htext] at h
      cases h
  | cons c v =>
      rw [htext] at h
      dsimp only at h
      split at h
      · rename_i hopener
        obtain rfl := hopener
        cases hgroup : groupRun b 1 none b.opener v with
        | none =>
            rw [hgroup] at h
            cases h
        | some p =>
            rw [hgroup] at h
            cases h
            refine ⟨u ++ (b.opener :: p.1 ++ [b.closer]), ?_, u, hu, groupRun_closes hgroup [], rfl⟩
            rw [hs, htext, groupRun_eq_some hgroup]
            simp
      · cases h

/-! ### Types -/

theorem skipWords_suffix (words : List (List Char)) (s : List Char) : skipWords words s <:+ s := by
  fun_induction skipWords words s with
  | case1 s rest hfound _ ih =>
      obtain ⟨word, _, hword⟩ := List.exists_of_findSome?_eq_some hfound
      have hsuffix : rest <:+ trimLeft s := ⟨word, (eq_append_of_dropWord? hword).symm⟩
      exact ih.trans (hsuffix.trans (trimLeft_suffix s))
  | case2 s => exact trimLeft_suffix s
  | case3 s => exact trimLeft_suffix s

theorem takes_typeText : typeText.Takes fun _ _ => True := by
  intro s a r h
  obtain ⟨rest, hrun, rfl, -⟩ := answer_typeText_eq_ok.mp h
  have hbefore := (skipWords_suffix typeQualifiers (trimLeft s)).trans (trimLeft_suffix s)
  obtain ⟨t, ht⟩ := (skipWords_suffix typeTrailers rest).trans ((typeRun_suffix hrun).trans hbefore)
  exact ⟨t, ht.symm, trivial⟩

theorem takes_swallowOneOf (table : List (List Char × α)) :
    (swallowOneOf table).Takes fun _ _ => True := by
  induction table with
  | nil => exact .bind takes_trim fun _ _ _ => .pure trivial
  | cons p table ih =>
      refine .bind (takes_swallowWord p.1) fun _ b _ => ?_
      cases b with
      | true => exact .pure trivial
      | false => exact ih

end Lexer

end HeaderReflection
