import HeaderReflection.Proofs.Lexer.Comments
import HeaderReflection.Proofs.Lexer.ExpressionItems

/-! # Groups, types and expressions in front of comments

A line comment stands behind the text that is read.  For the lexers which take long texts, it is to be seen
whether the comment becomes a part of what they take.

* A group ends at its bracket, so a comment behind the text does not change it (`Lexer.steady_balanced`).
* A type ends at the blanks in front of the comment.  Its trailers are looked for behind them, and there a
  comment is not taken for one (`Lexer.steadyUnlessSpent_typeText`).
* An expression or a text up to a stop goes on until it finds one.  These are steady unless they read their
  text to the end (`Lexer.steadyUnlessSpent_expression`, `Lexer.steadyUnlessSpent_upTo`); then they read the
  comment too.

The last point is where a comment does matter: a lexer that reads up to a stop has to find it in front of the
comment, which is what `Lexer.SteadyAt.upTo_bind` asks for. -/

namespace HeaderReflection.Lexer

open Text TrailingComment

/-! ### Groups -/

variable {c : TrailingComment} {s t r : List Char}

theorem steady_balanced (b : Bracket) : (balanced b).Steady := by
  intro s inner r h
  rw [answer_balanced] at h
  cases htext : trimLeft s with
  | nil =>
      rw [htext] at h
      cases h
  | cons d v =>
      rw [htext] at h
      dsimp only at h
      split at h
      · rename_i hopener
        cases hgroup : groupRun b 1 none d v with
        | none =>
            rw [hgroup] at h
            cases h
        | some p =>
            rw [hgroup] at h
            cases h
            have hv := groupRun_eq_some hgroup
            refine ⟨?_, fun c t ht => ⟨p.2 ++ c.chars, ?_, .behind _⟩⟩
            · refine .trans ⟨d :: p.1 ++ [b.closer], ?_⟩ (trimLeft_suffix s)
              rw [htext, hv]
              simp
            · have hline : trimLeft t = d :: (p.1 ++ b.closer :: (p.2 ++ c.chars)) := by
                have happend := ht.trimLeft.eq_append (by rw [htext]; exact List.cons_ne_nil d v)
                rw [happend, htext, hv]
                simp
              rw [answer_balanced, hline]
              dsimp only
              rw [if_pos hopener, groupRun_closes hgroup]
      · cases h

/-! ### Texts up to a stop -/

theorem steadyUnlessSpent_upTo (stops : List Char) : (upTo stops).SteadyUnlessSpent := by
  intro s w r h hr
  cases h
  refine ⟨List.dropWhile_suffix _, fun c t ht => ?_⟩
  have hs : s ≠ [] := by
    rintro rfl
    exact hr rfl
  obtain rfl := ht.eq_append hs
  have hrest : (s ++ c.chars).dropWhile (!stops.contains ·) = s.dropWhile (!stops.contains ·) ++ c.chars := by
    rw [List.dropWhile_append, if_neg]
    rwa [List.isEmpty_iff]
  have hwhole : (s ++ c.chars).takeWhile (!stops.contains ·) ++ (s ++ c.chars).dropWhile (!stops.contains ·) =
      s.takeWhile (!stops.contains ·) ++ (s ++ c.chars).dropWhile (!stops.contains ·) := by
    rw [List.takeWhile_append_dropWhile, hrest, ← List.append_assoc, List.takeWhile_append_dropWhile]
  have htaken := List.append_cancel_right hwhole
  refine ⟨_, ?_, .behind _⟩
  show (Except.ok ((s ++ c.chars).takeWhile (!stops.contains ·)), (s ++ c.chars).dropWhile (!stops.contains ·)) = _
  rw [htaken, hrest]

/-- What follows a text up to a stop that is there. -/
theorem SteadyAt.upTo_bind {β : Type} {stops : List Char} {f : List Char → Lexer β}
    (hstop : s.any stops.contains = true) (hf : ∀ w, (f w).Steady) : (upTo stops >>= f).SteadyAt s := by
  have hrest : s.dropWhile (!stops.contains ·) ≠ [] := by
    obtain ⟨d, hd, hdstop⟩ := List.any_eq_true.mp hstop
    intro hnil
    have hpassed : s.takeWhile (!stops.contains ·) = s := by
      have hwhole := List.takeWhile_append_dropWhile (p := (!stops.contains ·)) (l := s)
      rwa [hnil, List.append_nil] at hwhole
    have hnone := List.all_eq_true.mp (List.all_takeWhile (p := (!stops.contains ·)) (l := s)) d (by rwa [hpassed])
    rw [hdstop] at hnone
    cases hnone
  exact .bind ((steadyUnlessSpent_upTo stops).steadyAt rfl hrest) fun w r _ => hf w r

/-! ### Types -/

theorem IsSteadyTake.findSome? {words : List (List Char)} (hsolid : ∀ w ∈ words, isSolid w = true) :
    IsSteadyTake fun s => words.findSome? (dropWord? · s) := by
  induction words with
  | nil => exact ⟨nofun, nofun, fun _ _ => rfl⟩
  | cons w words ih =>
      obtain ⟨hw, hwords⟩ := List.forall_mem_cons.mp hsolid
      have hfirst := isSteadyTake_dropWord? hw
      have hothers := ih hwords
      refine ⟨fun {s r} h => ?_, fun {c s t r} ht h => ?_, fun {c s t} ht h => ?_⟩
      all_goals
        rw [List.findSome?_cons] at h
        split at h
      · rename_i hcase
        exact Option.some.inj h ▸ hfirst.suffix hcase
      · exact hothers.suffix h
      · rename_i hcase
        obtain ⟨u, hu, hvu⟩ := hfirst.takes ht hcase
        refine ⟨u, ?_, Option.some.inj h ▸ hvu⟩
        rw [List.findSome?_cons, hu]
      · rename_i hcase
        obtain ⟨u, hu, hru⟩ := hothers.takes ht h
        refine ⟨u, ?_, hru⟩
        rw [List.findSome?_cons, hfirst.refuses ht hcase]
        exact hu
      · cases h
      · rename_i hcase
        rw [List.findSome?_cons, hfirst.refuses ht hcase]
        exact hothers.refuses ht h

/-- No word is skipped in a comment. -/
theorem follows_skipWords {words : List (List Char)} (hsolid : ∀ w ∈ words, isSolid w = true)
    (ht : c.Follows s t) : c.Follows (skipWords words s) (skipWords words t) := by
  have htake := IsSteadyTake.findSome? hsolid
  fun_induction skipWords words s generalizing t with
  | case1 s rest hfound hlt ih =>
      obtain ⟨u, hu, hru⟩ := htake.takes ht.trimLeft hfound
      have hskip : skipWords words t = skipWords words u := by
        rw [skipWords.eq_def words t, hu]
        exact if_pos (ht.length_lt hru hlt)
      rw [hskip]
      exact ih hru
  | case2 s rest hfound hlt =>
      obtain ⟨w, hw, hword⟩ := List.exists_of_findSome?_eq_some hfound
      have hshorter : rest.length < (trimLeft s).length := by
        have hpos : 0 < w.length := by
          cases w with
          | nil => cases hsolid [] hw
          | cons d w => exact Nat.succ_pos _
        rw [eq_append_of_dropWord? hword, List.length_append]
        omega
      exact absurd (Nat.lt_of_lt_of_le hshorter (length_trimLeft_le s)) hlt
  | case3 s hnone =>
      have hskip : skipWords words t = trimLeft t := by
        have hrefused := htake.refuses ht.trimLeft hnone
        rw [skipWords.eq_def words t, hrefused]
      rw [hskip]
      exact ht.trimLeft

theorem typeRun_append {d : Depths} (h : typeRun d s = .ok r) (c : TrailingComment) :
    typeRun d (s ++ c.chars) = .ok (r ++ c.chars) := by
  obtain ⟨w, rfl, hw, hr⟩ := typeRun_eq_ok.mp h
  obtain ⟨e, x, hchars, he⟩ := c.exists_chars_eq_cons
  exact typeRun_eq_ok.mpr ⟨w, List.append_assoc w r _, hw, hr.append (hchars ▸ .cons he x)⟩

theorem steadyUnlessSpent_typeText : typeText.SteadyUnlessSpent := by
  intro s a r h hr
  obtain ⟨rest, hrun, rfl, rfl⟩ := answer_typeText_eq_ok.mp h
  have hrest := typeRun_suffix hrun
  have hleft := (skipWords_suffix typeTrailers rest).trans hrest
  have hwhole := hleft.trans (skipWords_suffix typeQualifiers (trimLeft s))
  refine ⟨hwhole.trans (trimLeft_suffix s), fun c t ht => ⟨_, ?_, .behind _⟩⟩
  have hne : ∀ {v : List Char}, skipWords typeTrailers rest <:+ v → v ≠ [] := by
    rintro v hv rfl
    exact hr (List.suffix_nil.mp hv)
  have hstart := ht.trimLeft.eq_append (hne hwhole)
  have hqualified := (follows_skipWords (by decide) ht.trimLeft).eq_append (hne hleft)
  have htrailed : c.Follows (skipWords typeTrailers rest) (skipWords typeTrailers (rest ++ c.chars)) :=
    follows_skipWords (by decide) (.behind rest)
  rw [answer_typeText, hqualified, typeRun_append hrun, hstart]
  dsimp only
  rw [htrailed.eq_append hr]
  obtain ⟨w, hw⟩ := hwhole
  rw [← hw, List.append_assoc, taken_append, taken_append]

/-! ### Expressions -/

theorem answer_expression (s : List Char) :
    expression.answer s = match expressionRun {} (trimLeft s) with
      | .ok rest => (.ok (Text.trim (taken (trimLeft s) rest)), rest)
      | .error e => (.error e, trimLeft s) := by
  show (match expressionRun {} (trimLeft s) with | _ => _ : Lexer (List Char)).answer (trimLeft s) = _
  cases expressionRun {} (trimLeft s) with
  | error e => rfl
  | ok rest => rfl

theorem answer_expression_eq_ok {s a r : List Char} : expression.answer s = (.ok a, r) ↔
    expressionRun {} (trimLeft s) = .ok r ∧ a = Text.trim (taken (trimLeft s) r) := by
  rw [answer_expression]
  cases expressionRun {} (trimLeft s) with
  | error e =>
      refine ⟨fun h => ?_, fun h => ?_⟩
      · cases h
      · cases h.1
  | ok rest =>
      constructor
      · intro h
        obtain ⟨ha, rfl⟩ := Prod.mk.inj h
        exact ⟨rfl, (Except.ok.inj ha).symm⟩
      · rintro ⟨⟨⟩, rfl⟩
        rfl

theorem steadyUnlessSpent_expression : expression.SteadyUnlessSpent := by
  intro s a r h hr
  obtain ⟨hrun, rfl⟩ := answer_expression_eq_ok.mp h
  have hsuffix := expressionRun_suffix hrun
  refine ⟨hsuffix.trans (trimLeft_suffix s), fun c t ht => ⟨_, ?_, .behind _⟩⟩
  have hne : trimLeft s ≠ [] := fun hnil => hr (List.suffix_nil.mp (hnil ▸ hsuffix))
  have hstart := ht.trimLeft.eq_append hne
  refine answer_expression_eq_ok.mpr ⟨?_, ?_⟩
  · rw [hstart]
    exact expressionRun_append hrun hr _
  · obtain ⟨w, hw⟩ := hsuffix
    rw [hstart, ← hw, List.append_assoc, taken_append, taken_append]

end HeaderReflection.Lexer
