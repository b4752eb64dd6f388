import HeaderReflection.Proofs.Text.Outside

/-! # Words and types in front of blanks

A lexer tells a word from the beginning of a longer one by the character behind it.

* A word is taken exactly if it is the run of identifier characters that comes next (`dropWord?_eq`).  So what
  stands behind the end of a word does not matter for it (`EndsWord`).
* Words that are skipped, such as qualifiers and trailers, are the same in front of a blank and in front of
  nothing, except that the blank itself may be skipped (`skipWords_append_blank`).
* A type that is read in front of one name is read in front of every other (`answer_typeText_of_name`): it
  ends at a blank, and only `const` could be taken for a part of it.

The last point lets a statement on all names be reduced to one on the name `x`, which is how a type that
stands in front of a name is described elsewhere. -/

namespace HeaderReflection.Lexer

open Text

/-! ### Words -/

variable {s t u v w : List Char} {b : Char}

/-- The text does not go on with an identifier character. -/
def EndsWord (t : List Char) : Prop := t.takeWhile isIdentifierChar = []

theorem endsWord_nil : EndsWord [] := rfl

theorem EndsWord.cons {c : Char} (hc : isIdentifierChar c = false) (t : List Char) : EndsWord (c :: t) :=
  List.takeWhile_cons_of_neg (by simp [hc])

theorem EndsWord.of_isBlank (hb : isBlank b = true) (t : List Char) : EndsWord (b :: t) :=
  .cons (isIdentifierChar_of_isBlank hb) t

theorem EndsWord.blank_append (hu : isBlankText u = true) (ht : EndsWord t) : EndsWord (u ++ t) := by
  cases u with
  | nil => exact ht
  | cons b u => exact .of_isBlank (Bool.and_eq_true_iff.mp hu).1 _

theorem EndsWord.dropWhile_eq (ht : EndsWord t) : t.dropWhile isIdentifierChar = t := by
  have hwhole := List.takeWhile_append_dropWhile (p := isIdentifierChar) (l := t)
  rwa [ht, List.nil_append] at hwhole

theorem endsWord_dropWhile (s : List Char) : EndsWord (s.dropWhile isIdentifierChar) := by
  induction s with
  | nil => exact endsWord_nil
  | cons c s ih =>
      by_cases hc : isIdentifierChar c = true
      · rwa [List.dropWhile_cons_of_pos hc]
      · rw [List.dropWhile_cons_of_neg hc]
        exact .cons (Bool.eq_false_iff.mpr hc) s

theorem IsWord.takeWhile_append (hw : IsWord w) (ht : EndsWord t) : (w ++ t).takeWhile isIdentifierChar = w := by
  rw [List.takeWhile_append_of_pos hw.2, ht, List.append_nil]

theorem IsWord.dropWhile_append (hw : IsWord w) (ht : EndsWord t) : (w ++ t).dropWhile isIdentifierChar = t := by
  rw [List.dropWhile_append_of_pos hw.2, ht.dropWhile_eq]

theorem IsWord.trimLeft_append (hw : IsWord w) (t : List Char) : trimLeft (w ++ t) = w ++ t := by
  obtain ⟨c, w, rfl⟩ := List.exists_cons_of_ne_nil hw.1
  have hvisible : isBlank c = false := by
    refine Bool.eq_false_iff.mpr fun hblank => ?_
    have hword := hw.2 c List.mem_cons_self
    rw [isIdentifierChar_of_isBlank hblank] at hword
    cases hword
  exact List.dropWhile_cons_of_neg (by simp [hvisible])

theorem IsWord.answer_identifier (hw : IsWord w) (ht : EndsWord t) : identifier.answer (w ++ t) = (.ok w, t) := by
  rw [Lexer.answer_identifier, hw.trimLeft_append, hw.takeWhile_append ht, hw.dropWhile_append ht,
    if_neg (by simpa using hw.1)]

theorem IsWord.not_cons_isPrefix_append {c : Char} (hw : IsWord w) (hc : isIdentifierChar c = false) (u t : List Char) :
    ¬c :: u <+: w ++ t := by
  rintro ⟨r, hr⟩
  obtain ⟨d, w, rfl⟩ := List.exists_cons_of_ne_nil hw.1
  obtain rfl : c = d := (List.cons.inj hr).1
  exact absurd ((hw.2 c List.mem_cons_self).symm.trans hc) Bool.noConfusion

/-- A word is taken exactly if it is all the identifier characters that come next. -/
theorem dropWord?_eq (hw : IsWord w) (s : List Char) :
    dropWord? w s = if s.takeWhile isIdentifierChar = w then some (s.dropWhile isIdentifierChar) else none := by
  cases hdrop : dropLiteral? w s with
  | none =>
      have hother : s.takeWhile isIdentifierChar ≠ w := by
        rintro rfl
        have hwhole := (List.takeWhile_append_dropWhile (p := isIdentifierChar) (l := s)).symm
        rw [dropLiteral?_eq_some.mpr hwhole] at hdrop
        cases hdrop
      rw [if_neg hother]
      unfold dropWord?
      rw [hdrop]
  | some r =>
      obtain rfl := dropLiteral?_eq_some.mp hdrop
      unfold dropWord?
      rw [hdrop]
      cases r with
      | nil => rw [if_pos (hw.takeWhile_append endsWord_nil), hw.dropWhile_append endsWord_nil]
      | cons c r =>
          have hlast : (w.getLast?.map isIdentifierChar).getD false = true := by
            rw [List.getLast?_eq_some_getLast hw.1]
            exact hw.2 _ (List.getLast_mem hw.1)
          dsimp only
          rw [hlast, Bool.and_true]
          cases hc : isIdentifierChar c with
          | false =>
              have hends := EndsWord.cons hc r
              rw [if_pos (hw.takeWhile_append hends), hw.dropWhile_append hends]
              rfl
          | true =>
              have hother : (w ++ c :: r).takeWhile isIdentifierChar ≠ w := by
                rw [List.takeWhile_append_of_pos hw.2, List.takeWhile_cons_of_pos hc]
                simp
              rw [if_neg hother, if_pos rfl]

theorem dropWord?_of_word (hu : IsWord u) (hw : IsWord w) (ht : EndsWord t) :
    dropWord? u (w ++ t) = if w = u then some t else none := by
  rw [dropWord?_eq hu, hw.takeWhile_append ht, hw.dropWhile_append ht]

/-! ### In front of a blank -/

theorem dropWord?_append_blank (hw : ∀ c ∈ w, isBlank c = false) (hb : isBlank b = true) (s t : List Char) :
    dropWord? w (s ++ b :: t) = (dropWord? w s).map (· ++ b :: t) := by
  unfold dropWord?
  rw [dropLiteral?_append_blank hw hb]
  cases dropLiteral? w s with
  | none => rfl
  | some r =>
      cases r with
      | nil => simp [isIdentifierChar_of_isBlank hb]
      | cons c r =>
          dsimp only [Option.map_some, List.cons_append]
          split
          · rfl
          · rfl

theorem length_lt_of_trimLeft (h : trimLeft s = w ++ t) (hw : w ≠ []) : t.length < s.length := by
  have hle := length_trimLeft_le s
  rw [h, List.length_append] at hle
  have hpos := List.length_pos_iff.mpr hw
  omega

theorem findSome?_nil {words : List (List Char)} (hwords : ∀ w ∈ words, w ≠ []) :
    words.findSome? (dropWord? · []) = none := by
  refine List.findSome?_eq_none_iff.mpr fun w hw => Option.eq_none_iff_forall_not_mem.mpr fun r hr => ?_
  exact hwords w hw (List.append_eq_nil_iff.mp (eq_append_of_dropWord? hr).symm).1

theorem length_lt_of_findSome? {words : List (List Char)} {r : List Char} (hwords : ∀ w ∈ words, w ≠ [])
    (h : words.findSome? (dropWord? · (trimLeft s)) = some r) : r.length < s.length := by
  obtain ⟨w, hw, hword⟩ := List.exists_of_findSome?_eq_some h
  exact length_lt_of_trimLeft (eq_append_of_dropWord? hword) (hwords w hw)

theorem skipWords_eq {words : List (List Char)} (hwords : ∀ w ∈ words, w ≠ []) (s : List Char) :
    skipWords words s = match words.findSome? (dropWord? · (trimLeft s)) with
      | some rest => skipWords words rest
      | none => trimLeft s := by
  rw [skipWords.eq_def]
  cases hfound : words.findSome? (dropWord? · (trimLeft s)) with
  | none => rfl
  | some rest => exact if_pos (length_lt_of_findSome? hwords hfound)

theorem findSome?_append_blank {words : List (List Char)} (hwords : ∀ w ∈ words, ∀ c ∈ w, isBlank c = false)
    (hb : isBlank b = true) (s t : List Char) :
    words.findSome? (dropWord? · (s ++ b :: t)) = (words.findSome? (dropWord? · s)).map (· ++ b :: t) := by
  induction words with
  | nil => rfl
  | cons w words ih =>
      obtain ⟨hw, hwords⟩ := List.forall_mem_cons.mp hwords
      rw [List.findSome?_cons, List.findSome?_cons, dropWord?_append_blank hw hb, ih hwords]
      cases dropWord? w s with
      | none => rfl
      | some r => rfl

/-- What is skipped in front of a blank is skipped in front of nothing.  Only where nothing else is left, the blank is
skipped too. -/
theorem skipWords_append_blank {words : List (List Char)} (hwords : ∀ w ∈ words, w ≠ [] ∧ ∀ c ∈ w, isBlank c = false)
    (hb : isBlank b = true) (s t : List Char) :
    skipWords words (s ++ b :: t) =
      if skipWords words s = [] then skipWords words (b :: t) else skipWords words s ++ b :: t := by
  have hne : ∀ w ∈ words, w ≠ [] := fun w hw => (hwords w hw).1
  have hsolid : ∀ w ∈ words, ∀ c ∈ w, isBlank c = false := fun w hw => (hwords w hw).2
  rw [skipWords_eq hne (s ++ b :: t), skipWords_eq hne s]
  by_cases hs : trimLeft s = []
  · rw [TrailingComment.trimLeft_append_of_blank hs, hs, findSome?_nil hne]
    dsimp only
    rw [if_pos rfl, ← skipWords_eq hne]
  · rw [TrailingComment.trimLeft_append hs, findSome?_append_blank hsolid hb]
    cases hfound : words.findSome? (dropWord? · (trimLeft s)) with
    | none =>
        dsimp only [Option.map_none]
        rw [if_neg hs]
    | some r =>
        dsimp only [Option.map_some]
        have hshorter : r.length < s.length := length_lt_of_findSome? hne hfound
        exact skipWords_append_blank hwords hb r t
termination_by s.length

/-! ### Types in front of names -/

theorem skipWords_typeTrailers_name (hu : isBlankText u = true) (hw : IsWord w) (hconst : w ≠ "const".toList)
    (ht : EndsWord t) : skipWords typeTrailers (u ++ (w ++ t)) = w ++ t := by
  have hmark : ∀ c, isIdentifierChar c = false → dropWord? [c] (w ++ t) = none := by
    intro c hc
    refine Option.eq_none_iff_forall_not_mem.mpr fun r hr => ?_
    exact hw.not_cons_isPrefix_append hc [] t ⟨r, (eq_append_of_dropWord? hr).symm⟩
  have hword : dropWord? "const".toList (w ++ t) = none := by
    rw [dropWord?_of_word ⟨by decide, by decide⟩ hw ht, if_neg hconst]
  have hnone : typeTrailers.findSome? (dropWord? · (w ++ t)) = none := by
    refine List.findSome?_eq_none_iff.mpr ?_
    simp only [typeTrailers, List.map_cons, List.map_nil, List.forall_mem_cons]
    exact ⟨hword, hmark '*' (by decide), hmark '&' (by decide), fun _ hnone => absurd hnone List.not_mem_nil⟩
  rw [skipWords_eq (by decide), trimLeft_blank_append hu, hw.trimLeft_append, hnone]

theorem trimmed_of_answer (h : typeText.answer (s ++ [' ', 'x']) = (.ok s, ['x'])) :
    Text.trim s = s ∧ ∀ t, trimLeft (s ++ t) = s ++ t := by
  have htrim : Text.trim s = s := by
    rw [answer_typeText] at h
    split at h
    · have hs := Except.ok.inj (Prod.mk.inj h).1
      rw [← hs, trim_trim]
    · cases h
  have hleft : trimLeft s = s := by
    have honce := trimLeft_trim s
    rwa [htrim] at honce
  have hne : trimLeft s ≠ [] := by
    intro hnil
    obtain rfl : s = [] := hleft.symm.trans hnil
    have hname : typeText.answer ([] ++ [' ', 'x']) = (.ok ['x'], []) := by
      rw [answer_typeText]
      cbv
    rw [hname] at h
    cases h
  refine ⟨htrim, fun t => ?_⟩
  rw [TrailingComment.trimLeft_append hne, hleft]

theorem exists_typeRun_of_answer (h : typeText.answer (s ++ [' ', 'x']) = (.ok s, ['x'])) :
    ∃ r, skipWords typeTrailers r = [] ∧ ∀ b t, isBlank b = true →
      typeRun {} (skipWords typeQualifiers (s ++ b :: t)) = .ok (r ++ b :: t) := by
  have hqualifiers : ∀ v ∈ typeQualifiers, v ≠ [] ∧ ∀ c ∈ v, isBlank c = false := by decide
  have htrailers : ∀ v ∈ typeTrailers, v ≠ [] ∧ ∀ c ∈ v, isBlank c = false := by decide
  have hspace : isBlank ' ' = true := rfl
  obtain ⟨rest, hrun, hrest, -⟩ := answer_typeText_eq_ok.mp h
  rw [(trimmed_of_answer h).2, skipWords_append_blank hqualifiers hspace] at hrun
  have hnone : skipWords typeTrailers [] = [] := by cbv
  have hne : skipWords typeQualifiers s ≠ [] := by
    -- The name would be read as the type.
    intro hnil
    have hname : skipWords typeQualifiers [' ', 'x'] = ['x'] := by cbv
    have hx : typeRun {} ['x'] = .ok [] := rfl
    rw [if_pos hnil, hname, hx] at hrun
    cases hrun
    rw [hnone] at hrest
    cases hrest
  rw [if_neg hne] at hrun
  obtain ⟨w, hw, hwrun, hends⟩ := typeRun_eq_ok.mp hrun
  obtain ⟨r, hr, rfl⟩ : ∃ r, skipWords typeQualifiers s = w ++ r ∧ rest = r ++ [' ', 'x'] := by
    rcases List.append_eq_append_iff.mp hw with ⟨u, rfl, hu⟩ | ⟨u, hs, hu⟩
    · rcases u with _ | ⟨a, _ | ⟨b, v⟩⟩
      · exact ⟨[], by simp, hu.symm⟩
      · -- The run would end in front of the name.
        cases hu
        exact absurd (hends 'x' rfl) (by decide)
      · obtain ⟨-, rfl⟩ := List.append_eq_nil_iff.mp (List.cons.inj (List.cons.inj hu).2).2.symm
        rw [hnone] at hrest
        cases hrest
    · exact ⟨u, hs, hu⟩
  rw [skipWords_append_blank htrailers hspace] at hrest
  refine ⟨r, ?_, fun b t hb => ?_⟩
  · split at hrest
    · rename_i hnil
      exact hnil
    · have hlength := congrArg List.length hrest
      rw [List.length_append] at hlength
      simp at hlength
  · rw [skipWords_append_blank hqualifiers hb, if_neg hne, hr, List.append_assoc]
    exact hwrun.typeRun_eq (hends.of_append.append (.cons hb t))

/-- A type that is read in front of one name is read in front of every other one. -/
theorem answer_typeText_of_name (h : typeText.answer (s ++ [' ', 'x']) = (.ok s, ['x'])) (hb : isBlank b = true)
    (hu : isBlankText u = true) (hw : IsWord w) (hconst : w ≠ "const".toList) (ht : EndsWord t) :
    typeText.answer (s ++ b :: (u ++ (w ++ t))) = (.ok s, w ++ t) := by
  obtain ⟨htrim, hbegins⟩ := trimmed_of_answer h
  obtain ⟨r, htrailers, hrun⟩ := exists_typeRun_of_answer h
  have hbu : isBlankText (b :: u) = true := Bool.and_eq_true_iff.mpr ⟨hb, hu⟩
  have hname : skipWords typeTrailers (b :: (u ++ (w ++ t))) = w ++ t :=
    skipWords_typeTrailers_name hbu hw hconst ht
  have htaken : taken (s ++ b :: (u ++ (w ++ t))) (w ++ t) = s ++ b :: u := by
    have hsplit : s ++ b :: (u ++ (w ++ t)) = (s ++ b :: u) ++ (w ++ t) := by simp
    rw [hsplit, taken_append]
  rw [answer_typeText, hbegins, hrun _ _ hb]
  dsimp only
  rw [skipWords_append_blank (by decide) hb, if_pos htrailers, hname, htaken, trim_append_blank hbu, htrim]

end HeaderReflection.Lexer
