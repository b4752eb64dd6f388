import HeaderReflection.Proofs.Lexer.Words

/-! # Types that are read whole

A text is read as a type from its first to its last character if the run of the type ends where only trailers
follow (`answer_typeText_whole`); blanks behind it do not matter (`answer_typeText_append_blanks`).

What is taken for a type from any text is read whole again (`typeText_stable`).  The text is cut off behind
the type, and none of the three parts of a type takes more or less than before:

* qualifiers and trailers are words that are skipped.  A word that ends in front of something else may be cut
  in two, and then a shorter word may be taken; but the cut is where the type ends, so nothing is left behind
  it (`skipWords_cut`);
* the run ends at a blank, and it ends there wherever the text is cut off (`typeRun_cut`).

What a reader leaves begins with neither a blank nor anything that could belong to the type, since blanks are
skipped in front of each trailer, and the last search for one found none. -/

namespace HeaderReflection.Lexer

open Text

variable {words : List (List Char)} {s t u v w z r a : List Char} {b : Char} {d : Depths}

/-! ### Types in front of blanks -/

theorem skipWords_nil (words : List (List Char)) : skipWords words [] = [] :=
  List.suffix_nil.mp (skipWords_suffix words [])

theorem trimLeft_skipWords (words : List (List Char)) (s : List Char) :
    trimLeft (skipWords words s) = skipWords words s := by
  fun_induction skipWords words s with
  | case1 s rest hfound hshorter ih => exact ih
  | case2 s rest hfound hlong => exact trimLeft_trimLeft s
  | case3 s hnone => exact trimLeft_trimLeft s

theorem not_word_skipWords (hwords : ∀ w ∈ words, w ≠ []) (s : List Char) :
    ∀ w ∈ words, dropWord? w (skipWords words s) = none := by
  rw [skipWords_eq hwords]
  cases hfound : words.findSome? (dropWord? · (trimLeft s)) with
  | none => exact List.findSome?_eq_none_iff.mp hfound
  | some rest =>
      have hshorter : rest.length < s.length := length_lt_of_findSome? hwords hfound
      exact not_word_skipWords hwords rest
termination_by s.length

theorem findSome?_word (hwords : ∀ v ∈ words, IsWord v) (hw : w ∈ words) (ht : EndsWord t) :
    words.findSome? (dropWord? · (w ++ t)) = some t := by
  have hdrop : ∀ v ∈ words, dropWord? v (w ++ t) = if w = v then some t else none := fun v hv =>
    dropWord?_of_word (hwords v hv) (hwords w hw) ht
  cases hfound : words.findSome? (dropWord? · (w ++ t)) with
  | none =>
      have hnone := List.findSome?_eq_none_iff.mp hfound w hw
      rw [hdrop w hw, if_pos rfl] at hnone
      cases hnone
  | some r =>
      obtain ⟨v, hv, hr⟩ := List.exists_of_findSome?_eq_some hfound
      rw [hdrop v hv] at hr
      split at hr
      · exact hr.symm
      · cases hr

theorem findSome?_append_blanks (hwords : ∀ w ∈ words, ∀ c ∈ w, isBlank c = false) (hu : isBlankText u = true)
    (s : List Char) :
    words.findSome? (dropWord? · (s ++ u)) = none ↔ words.findSome? (dropWord? · s) = none := by
  cases u with
  | nil => rw [List.append_nil]
  | cons b u => rw [findSome?_append_blank hwords (Bool.and_eq_true_iff.mp hu).1, Option.map_eq_none_iff]

theorem skipWords_append_blanks (hwords : ∀ w ∈ words, w ≠ [] ∧ ∀ c ∈ w, isBlank c = false)
    (hu : isBlankText u = true) (s : List Char) :
    skipWords words (s ++ u) = if skipWords words s = [] then [] else skipWords words s ++ u := by
  cases u with
  | nil =>
      rw [List.append_nil, List.append_nil]
      split
      · rename_i hnil
        exact hnil
      · rfl
  | cons b v =>
      have hne : ∀ w ∈ words, w ≠ [] := fun w hw => (hwords w hw).1
      have hblank : skipWords words (b :: v) = [] := by
        rw [skipWords_eq hne, trimLeft_eq_nil hu, findSome?_nil hne]
      rw [skipWords_append_blank hwords (Bool.and_eq_true_iff.mp hu).1, hblank]

/-- Only trailers follow where the run of a type ends. -/
def RunsOut (d : Depths) (s : List Char) : Prop := ∃ r, typeRun d s = .ok r ∧ skipWords typeTrailers r = []

theorem runsOut_append_blanks (hu : isBlankText u = true) (d : Depths) (s : List Char) :
    RunsOut d (s ++ u) ↔ RunsOut d s := by
  have htrailers : ∀ v ∈ typeTrailers, v ≠ [] ∧ ∀ c ∈ v, isBlank c = false := by decide
  have hskipped := fun r => skipWords_append_blanks htrailers hu r
  constructor
  · rintro ⟨r, hr, hnil⟩
    obtain ⟨w, hw, hwrun, hends⟩ := typeRun_eq_ok.mp hr
    -- No run ends with blanks, so this one ends in front of them.
    obtain ⟨v, rfl, rfl⟩ : ∃ v, s = w ++ v ∧ r = v ++ u := by
      rcases List.append_eq_append_iff.mp hw with ⟨x, rfl, rfl⟩ | ⟨x, hs, hr⟩
      · obtain rfl := hwrun.eq_nil_of_append (List.all_eq_true.mpr fun b hb =>
          List.all_eq_true.mp hu b (List.mem_append_left r hb))
        exact ⟨[], by simp, rfl⟩
      · exact ⟨x, hs, hr⟩
    refine ⟨v, typeRun_eq_ok.mpr ⟨w, rfl, hwrun, hends.of_append⟩, ?_⟩
    rw [hskipped] at hnil
    split at hnil
    · rename_i hv
      exact hv
    · exact (List.append_eq_nil_iff.mp hnil).1
  · rintro ⟨r, hr, hnil⟩
    obtain ⟨w, rfl, hwrun, hends⟩ := typeRun_eq_ok.mp hr
    refine ⟨r ++ u, typeRun_eq_ok.mpr ⟨w, List.append_assoc w r u, hwrun, hends.append (.of_blank hu)⟩, ?_⟩
    rw [hskipped, if_pos hnil]

theorem answer_typeText_whole :
    typeText.answer s = (.ok a, []) ↔ RunsOut {} (skipWords typeQualifiers (trimLeft s)) ∧ a = Text.trim s := by
  have htaken : Text.trim (taken (trimLeft s) []) = Text.trim s := by
    show Text.trim ((trimLeft s).take (trimLeft s).length) = Text.trim s
    rw [List.take_length]
    exact congrArg trimRight (trimLeft_trimLeft s)
  rw [answer_typeText_eq_ok]
  constructor
  · rintro ⟨r, hr, hnil, rfl⟩
    exact ⟨⟨r, hr, hnil.symm⟩, htaken⟩
  · rintro ⟨⟨r, hr, hnil⟩, rfl⟩
    exact ⟨r, hr, hnil.symm, htaken.symm⟩

theorem eq_nil_of_answer_typeText {r : List Char} (h : typeText.answer s = (.ok a, r)) (hr : isBlankText r = true) :
    r = [] := by
  obtain ⟨rest, -, rfl, -⟩ := answer_typeText_eq_ok.mp h
  rw [← trimLeft_skipWords]
  exact trimLeft_eq_nil hr

theorem answer_typeText_append_blanks (hu : isBlankText u = true) (s : List Char) :
    typeText.answer (s ++ u) = (.ok a, []) ↔ typeText.answer s = (.ok a, []) := by
  have hqualifiers : ∀ v ∈ typeQualifiers, v ≠ [] ∧ ∀ c ∈ v, isBlank c = false := by decide
  rw [answer_typeText_whole, answer_typeText_whole, trim_append_blank hu]
  refine and_congr_left fun _ => ?_
  by_cases hs : trimLeft s = []
  · rw [TrailingComment.trimLeft_append_of_blank hs, trimLeft_eq_nil hu, hs]
  · rw [TrailingComment.trimLeft_append hs, skipWords_append_blanks hqualifiers hu]
    split
    · rename_i hnil
      rw [hnil]
    · exact runsOut_append_blanks hu {} _

/-! ### Texts that are cut off -/

/-- A word that is taken in front of a text is taken where the text is cut off, unless it is cut off at once: then
the word is all that is left. -/
theorem dropWord?_cut (h : dropWord? w (s ++ t) = some (r ++ t)) : dropWord? w s = some r := by
  have hs : s = w ++ r := by
    have happend := eq_append_of_dropWord? h
    rw [← List.append_assoc] at happend
    exact List.append_cancel_right happend
  subst hs
  have hshort : dropLiteral? w (w ++ r) = some r := dropLiteral?_eq_some.mpr rfl
  have hlong : dropLiteral? w (w ++ r ++ t) = some (r ++ t) := dropLiteral?_eq_some.mpr (List.append_assoc w r t)
  unfold dropWord? at h ⊢
  rw [hlong] at h
  rw [hshort]
  cases r with
  | nil => rfl
  | cons c r =>
      dsimp only [List.cons_append] at h ⊢
      split at h
      · cases h
      · rename_i hends
        exact if_neg hends

theorem eq_nil_of_dropWord?_cut (hlong : dropWord? w (s ++ t) = none) (hshort : dropWord? w s = some r) : r = [] := by
  obtain rfl := eq_append_of_dropWord? hshort
  cases r with
  | nil => rfl
  | cons c r =>
      have hwhole : dropLiteral? w (w ++ c :: r ++ t) = some (c :: (r ++ t)) :=
        dropLiteral?_eq_some.mpr (List.append_assoc w (c :: r) t)
      have hpart : dropLiteral? w (w ++ c :: r) = some (c :: r) := dropLiteral?_eq_some.mpr rfl
      unfold dropWord? at hlong hshort
      rw [hwhole] at hlong
      rw [hpart] at hshort
      dsimp only at hlong hshort
      split at hshort
      · cases hshort
      · rename_i hends
        rw [if_neg hends] at hlong
        cases hlong

theorem findSome?_cut (h : words.findSome? (dropWord? · (s ++ t)) = some (r ++ t)) :
    words.findSome? (dropWord? · s) = some r ∨ words.findSome? (dropWord? · s) = some [] := by
  induction words with
  | nil => cases h
  | cons w words ih =>
      rw [List.findSome?_cons] at h ⊢
      cases hlong : dropWord? w (s ++ t) with
      | some q =>
          rw [hlong] at h
          obtain rfl := Option.some.inj h
          rw [dropWord?_cut hlong]
          exact .inl rfl
      | none =>
          rw [hlong] at h
          cases hshort : dropWord? w s with
          | some q =>
              obtain rfl := eq_nil_of_dropWord?_cut hlong hshort
              exact .inr rfl
          | none => exact ih h

/-- Where words are skipped up to a text, they are all skipped if the text is cut off. -/
theorem skipWords_cut (hwords : ∀ w ∈ words, w ≠ []) {s t : List Char} (h : skipWords words (s ++ t) = t) :
    skipWords words s = [] := by
  rw [skipWords_eq hwords] at h ⊢
  by_cases hs : trimLeft s = []
  · rw [hs, findSome?_nil hwords]
  · rw [TrailingComment.trimLeft_append hs] at h
    cases hlong : words.findSome? (dropWord? · (trimLeft s ++ t)) with
    | none =>
        rw [hlong] at h
        exact absurd (List.append_left_eq_self.mp h) hs
    | some q =>
        rw [hlong] at h
        dsimp only at h
        obtain ⟨r, rfl⟩ : ∃ r, q = r ++ t := by
          obtain ⟨r, hr⟩ := h ▸ skipWords_suffix words q
          exact ⟨r, hr.symm⟩
        -- The same word is taken, or one that the text behind had continued.
        rcases findSome?_cut hlong with hshort | hshort
        · rw [hshort]
          have hshorter : r.length < s.length := length_lt_of_findSome? hwords hshort
          exact skipWords_cut hwords h
        · rw [hshort]
          exact skipWords_nil words
termination_by s.length

theorem typeRun_cut (h : typeRun d (s ++ b :: t) = .ok (b :: t)) :
    typeRun d s = .ok [] ∧ ∀ c u, isBlank c = true → typeRun d (s ++ c :: u) = .ok (c :: u) := by
  obtain ⟨w, hw, hwrun, -⟩ := typeRun_eq_ok.mp h
  obtain rfl := List.append_cancel_right hw
  exact ⟨typeRun_eq_ok.mpr ⟨s, (List.append_nil s).symm, hwrun, nofun⟩, fun c u hc => hwrun.typeRun_eq (.cons hc u)⟩

theorem trimLeft_cons_ne (hb : isBlank b = true) (t : List Char) : trimLeft (b :: t) ≠ b :: t := by
  intro h
  have hskip : trimLeft (b :: t) = trimLeft t := List.dropWhile_cons_of_pos hb
  have hle := length_trimLeft_le t
  rw [← hskip, h, List.length_cons] at hle
  omega

theorem trimLeft_of_append (h : trimLeft (s ++ t) = s ++ t) : trimLeft s = s := by
  by_cases hs : trimLeft s = []
  · rw [TrailingComment.trimLeft_append_of_blank hs] at h
    have hle := length_trimLeft_le t
    rw [h, List.length_append] at hle
    obtain rfl : s = [] := List.eq_nil_of_length_eq_zero (by omega)
    rfl
  · rw [TrailingComment.trimLeft_append hs] at h
    exact List.append_cancel_right h

/-- Qualifiers in front of the run of a type are skipped in the same way where the text is cut off behind the run, at
the blank that ends it. -/
theorem typeRun_skipWords_cut (h : typeRun {} (skipWords typeQualifiers (s ++ b :: t)) = .ok (b :: t))
    (hb : isBlank b = true) :
    typeRun {} (skipWords typeQualifiers s) = .ok [] ∧
      ∀ c u, isBlank c = true → typeRun {} (skipWords typeQualifiers (s ++ c :: u)) = .ok (c :: u) := by
  have hqualifiers : ∀ v ∈ typeQualifiers, v ≠ [] ∧ ∀ c ∈ v, isBlank c = false := by decide
  rw [skipWords_append_blank hqualifiers hb] at h
  have hne : skipWords typeQualifiers s ≠ [] := by
    intro hnil
    rw [if_pos hnil] at h
    have hwhole := (typeRun_suffix h).eq_of_length_le (skipWords_suffix typeQualifiers (b :: t)).length_le
    exact trimLeft_cons_ne hb t (hwhole ▸ trimLeft_skipWords typeQualifiers (b :: t))
  rw [if_neg hne] at h
  obtain ⟨hend, hblank⟩ := typeRun_cut h
  refine ⟨hend, fun c u hc => ?_⟩
  rw [skipWords_append_blank hqualifiers hc, if_neg hne]
  exact hblank c u hc

/-- A type is read whole from the text that was taken for it. -/
theorem answer_typeText_taken (hs : trimLeft s = w ++ t) (h : typeText.answer s = (.ok r, t)) :
    typeText.answer w = (.ok (Text.trim w), []) := by
  have hvisible : trimLeft w = w := trimLeft_of_append (t := t) (hs ▸ trimLeft_trimLeft s)
  rw [answer_typeText_whole, hvisible]
  refine ⟨?_, rfl⟩
  obtain ⟨rest, hrun, rfl, -⟩ := answer_typeText_eq_ok.mp h
  cases rest with
  | nil =>
      rw [skipWords_nil, List.append_nil] at hs
      exact ⟨[], hs ▸ hrun, skipWords_nil typeTrailers⟩
  | cons b y =>
      -- The run ends at a blank; what is taken is the text up to there and the trailers behind it.
      obtain ⟨-, -, -, hends⟩ := typeRun_eq_ok.mp hrun
      have hb : isBlank b = true := hends b rfl
      obtain ⟨z, hz⟩ := skipWords_suffix typeTrailers (b :: y)
      obtain ⟨x, hx⟩ := (typeRun_suffix hrun).trans (skipWords_suffix typeQualifiers (trimLeft s))
      have hwhole : x ++ z ++ skipWords typeTrailers (b :: y) = w ++ skipWords typeTrailers (b :: y) := by
        rw [List.append_assoc, hz, hx, hs]
      obtain rfl := List.append_cancel_right hwhole
      rw [← hx] at hrun
      obtain ⟨hend, hblank⟩ := typeRun_skipWords_cut hrun hb
      cases z with
      | nil =>
          rw [List.append_nil]
          exact ⟨[], hend, skipWords_nil typeTrailers⟩
      | cons c u =>
          obtain rfl : c = b := (List.cons.inj hz).1
          have hskipped := congrArg (skipWords typeTrailers) hz
          exact ⟨c :: u, hblank c u hb, skipWords_cut (by decide) hskipped⟩

theorem dropWord?_mark {c : Char} (hc : isIdentifierChar c = false) (t : List Char) :
    dropWord? [c] (c :: t) = some t := by
  have hdrop : dropLiteral? [c] (c :: t) = some t := dropLiteral?_eq_some.mpr rfl
  unfold dropWord?
  rw [hdrop]
  cases t with
  | nil => rfl
  | cons d t => simp [hc]

/-! ### Stability -/

/-- Reading a type is stable.  What it takes is the type and the blanks around it, and what it leaves begins with
neither a blank nor anything that could belong to a type; the type alone is read as itself and whole. -/
theorem typeText_stable (h : typeText.answer s = (.ok r, t)) :
    (∃ w, trimLeft s = w ++ t ∧ Text.trim w = r) ∧
    trimLeft t = t ∧ ¬['*'] <+: t ∧ ¬['&'] <+: t ∧ t.takeWhile isIdentifierChar ≠ "const".toList ∧
    typeText.answer r = (.ok r, []) := by
  obtain ⟨w, hw, rfl, -⟩ := typeText_closes h
  obtain ⟨v, -, hv, -⟩ := answer_typeText_eq_ok.mp h
  have hnone : ∀ x ∈ typeTrailers, dropWord? x t = none := hv ▸ not_word_skipWords (by decide) v
  have hmark : ∀ c, isIdentifierChar c = false → [c] ∈ typeTrailers → ¬[c] <+: t := by
    rintro c hc hmem ⟨u, rfl⟩
    have htaken := hnone [c] hmem
    rw [List.singleton_append, dropWord?_mark hc] at htaken
    cases htaken
  have hconst : t.takeWhile isIdentifierChar ≠ "const".toList := by
    intro hword
    have hdrop := hnone "const".toList (by decide)
    rw [dropWord?_eq ⟨by decide, by decide⟩, if_pos hword] at hdrop
    cases hdrop
  have hread : typeText.answer (Text.trim w) = (.ok (Text.trim w), []) := by
    have hvisible : trimLeft w = w := trimLeft_of_append (t := t) (hw ▸ trimLeft_trimLeft s)
    obtain ⟨u, hu, hblank⟩ := exists_trimRight w
    have htrim : Text.trim w = trimRight w := congrArg trimRight hvisible
    rw [← htrim] at hu
    rw [← answer_typeText_append_blanks (List.all_eq_true.mpr hblank), ← hu]
    exact answer_typeText_taken hw h
  exact ⟨⟨w, hw, rfl⟩, hv ▸ trimLeft_skipWords typeTrailers v, hmark '*' rfl (by decide), hmark '&' rfl (by decide),
    hconst, hread⟩

theorem typeText_stable_const :
    typeText.answer " const struct map<a b, (c)> const*& const (constant)".toList =
        (.ok "const struct map<a b, (c)> const*& const".toList, "(constant)".toList) ∧
      typeText.answer "const struct map<a b, (c)> const*& const".toList =
        (.ok "const struct map<a b, (c)> const*& const".toList, []) := by
  have hread : typeText.answer " const struct map<a b, (c)> const*& const (constant)".toList =
      (.ok "const struct map<a b, (c)> const*& const".toList, "(constant)".toList) := by
    rw [answer_typeText]
    cbv
  exact ⟨hread, (typeText_stable hread).2.2.2.2.2⟩

end HeaderReflection.Lexer
