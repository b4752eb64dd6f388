import HeaderReflection.Proofs.Declaration.Parameters

/-! # The names of parameters

A proxy hands on the names of its parameters, so it matters when a parameter has one.  The list of parameters
is cut at its commas, and of each piece the last word is taken as the name, unless nothing stands before it.

* A parameter has a name exactly if the text in front of its default argument ends in a word that other text
  stands before (`EndsIn`, `Parameter.name_ne_empty_iff`).  An array ends in a bracket, and a parameter that
  is only a type of one word has nothing before the word, so neither has a name.
* The pieces of a list are those that its commas outside of brackets cut it into; a list that is empty or
  `void` has none (`Parameter.pieces`).
* Where the pieces that are meant enclose their commas and close their brackets, the list is cut into just
  these, and the words that they end in are the names (`Parameter.names_ofList`). -/

namespace HeaderReflection

open Text BracketSet

namespace Parameter

/-! ### One piece -/

section piece

variable {s w initializer : List Char}

/-- The text ends in a word that other text stands before. -/
def EndsIn (s w : List Char) : Prop :=
  w ≠ [] ∧ (∀ c ∈ w, isNameChar c = true) ∧ ∃ t c, trim s = t ++ c :: w ∧ isNameChar c = false

/-- What a piece has in front of its default argument ends in the name. -/
def Declares (piece name : List Char) : Prop := EndsIn (splitInitializer piece).1 name

theorem isBlankText_before {t : List Char} {c : Char} (h : trim s = t ++ c :: w) : isBlankText (t ++ [c]) = false := by
  refine Bool.eq_false_iff.mpr fun hblank => ?_
  have hsplit : trim s = (t ++ [c]) ++ w := by rw [h, List.append_assoc]; rfl
  have hleft := trimLeft_trim s
  rw [hsplit, trimLeft_blank_append hblank] at hleft
  have hle := length_trimLeft_le w
  rw [hleft, List.length_append, List.length_append, List.length_singleton] at hle
  omega

theorem EndsIn.name (h : EndsIn s w) : (ofDeclarator s initializer).name = String.ofList w := by
  obtain ⟨-, hw, t, c, htrim, hc⟩ := h
  have hreverse : (trim s).reverse = w.reverse ++ c :: t.reverse := by
    rw [htrim]
    simp
  have hchars : ∀ d ∈ w.reverse, isNameChar d = true := fun d hd => hw d (List.mem_reverse.mp hd)
  have htake : (trim s).reverse.takeWhile isNameChar = w.reverse := by
    rw [hreverse, List.takeWhile_append_of_pos hchars, List.takeWhile_cons_of_neg (by simp [hc]), List.append_nil]
  have hdrop : (trim s).reverse.dropWhile isNameChar = (t ++ [c]).reverse := by
    rw [hreverse, List.dropWhile_append_of_pos hchars, List.dropWhile_cons_of_neg (by simp [hc])]
    simp
  have htype : (String.ofList (trim (t ++ [c]))).isEmpty = false := by
    refine Bool.eq_false_iff.mpr fun hempty => ?_
    have hnil := congrArg String.toList (String.isEmpty_iff.mp hempty)
    rw [String.toList_ofList] at hnil
    exact trim_ne_nil (isBlankText_before htrim) hnil
  unfold ofDeclarator
  dsimp only
  rw [htake, hdrop, List.reverse_reverse, List.reverse_reverse, htype]
  rfl

theorem exists_endsIn (h : (ofDeclarator s initializer).name ≠ "") : ∃ w, EndsIn s w := by
  unfold ofDeclarator at h
  dsimp only at h
  split at h
  · exact absurd rfl h
  · rename_i htype
    have hwhole := congrArg List.reverse (List.takeWhile_append_dropWhile (p := isNameChar) (l := (trim s).reverse))
    have hhead := List.head?_dropWhile_not isNameChar (trim s).reverse
    have hchars := List.all_eq_true.mp (List.all_takeWhile (p := isNameChar) (l := (trim s).reverse))
    rw [List.reverse_append, List.reverse_reverse] at hwhole
    generalize (trim s).reverse.takeWhile isNameChar = r at h hwhole hchars
    cases hdrop : (trim s).reverse.dropWhile isNameChar with
    | nil =>
        rw [hdrop] at htype
        exact absurd rfl htype
    | cons c t =>
        rw [hdrop] at hwhole hhead
        refine ⟨r.reverse, ?_, fun d hd => hchars d (List.mem_reverse.mp hd), t.reverse, c, ?_, by simpa using hhead⟩
        · intro hnil
          rw [hnil] at h
          exact h rfl
        · rw [← hwhole, List.reverse_cons, List.append_assoc]
          rfl

theorem Declares.name (h : Declares s w) : (ofPiece s).name = String.ofList w := EndsIn.name h

/-- A parameter has a name exactly if what stands in front of its default argument ends in one. -/
theorem name_ne_empty_iff : (ofPiece s).name ≠ "" ↔ ∃ w, Declares s w := by
  refine ⟨fun h => exists_endsIn h, fun ⟨w, h⟩ hempty => ?_⟩
  rw [h.name] at hempty
  exact h.1 (String.ofList_injective hempty)

theorem splitInitializer_of_isOrdinary (hs : ∀ c ∈ s, isOrdinary c = true) : splitInitializer s = (s, []) := by
  have hcut : cutOutside? allBrackets (· == '=') 0 s = none :=
    cutOutside?_eq_none (level_of_isOrdinary endsType_of_isAssignment hs 0).1
  unfold splitInitializer
  rw [hcut]

end piece

/-! ### Lists -/

section list

/-- The pieces of a list; a list that is empty or `void` has none. -/
def pieces (s : List Char) : List (List Char) :=
  if trim s = [] ∨ trim s = "void".toList then [] else splitOutside allBrackets 0 s

theorem ofList_eq (s : List Char) : ofList s = (pieces s).map ofPiece := by
  unfold pieces
  split
  · rename_i hnone
    unfold ofList
    dsimp only
    rw [if_pos (by simpa using hnone)]
    rfl
  · rename_i hsome
    obtain ⟨hne, hvoid⟩ := not_or.mp hsome
    exact ofList_of_visible hne hvoid

theorem forall_name_ne_empty_iff (s : List Char) :
    (∀ a ∈ ofList s, a.name ≠ "") ↔ ∀ p ∈ pieces s, ∃ w, Declares p w := by
  rw [ofList_eq]
  constructor
  · intro h p hp
    exact name_ne_empty_iff.mp (h (ofPiece p) (List.mem_map_of_mem hp))
  · intro h a ha
    obtain ⟨p, hp, rfl⟩ := List.mem_map.mp ha
    exact name_ne_empty_iff.mpr (h p hp)

/-- A piece of a list with the name that it declares. -/
structure NamedPiece where
  text : List Char
  name : List Char
  declares : Declares text name

variable {ps : List NamedPiece}

/-- The texts of the pieces. -/
def texts (ps : List NamedPiece) : List (List Char) := ps.map (·.text)

theorem not_declares_of_void {s : List Char} (hs : trim s = [] ∨ trim s = "void".toList) :
    splitOutside allBrackets 0 s = [s] ∧ ∀ w, ¬Declares s w := by
  have hword : ∀ c ∈ trim s, isNameChar c = true ∧ isOrdinary c = true := by
    rcases hs with hnil | hvoid
    · rw [hnil]
      exact List.forall_mem_nil _
    · rw [hvoid]
      decide
  have hordinary : ∀ c ∈ s, isOrdinary c = true := by
    obtain ⟨u, v, htext, hu, hv⟩ := exists_trim s
    rw [htext, List.forall_mem_append, List.forall_mem_append]
    exact ⟨fun c hc => isOrdinary_of_isBlank (List.all_eq_true.mp hu c hc), fun c hc => (hword c hc).2,
      fun c hc => isOrdinary_of_isBlank (List.all_eq_true.mp hv c hc)⟩
  refine ⟨splitOutside_of_encloses (level_of_isOrdinary endsType_of_isComma hordinary 0).1, ?_⟩
  rintro w ⟨-, -, t, c, htrim, hc⟩
  rw [splitInitializer_of_isOrdinary hordinary] at htrim
  have hname := (hword c (htrim ▸ List.mem_append_right _ List.mem_cons_self)).1
  rw [hc] at hname
  cases hname

theorem pieces_intercalate (h : allBrackets.AreLevel (texts ps)) : pieces ([','].intercalate (texts ps)) = texts ps := by
  cases ps with
  | nil => rfl
  | cons p ps =>
      have hsplit := splitOutside_intercalate h (List.cons_ne_nil p.text (texts ps))
      unfold pieces
      split
      · rename_i hvoid
        obtain ⟨hone, hnot⟩ := not_declares_of_void hvoid
        obtain ⟨hwhole, -⟩ := List.cons.inj (hone.symm.trans hsplit)
        rw [hwhole] at hnot
        exact absurd p.declares (hnot p.name)
      · exact hsplit

/-- The names of the parameters are those that the pieces declare. -/
theorem names_ofList (h : allBrackets.AreLevel (texts ps)) :
    (ofList ([','].intercalate (texts ps))).map (·.name) = ps.map (String.ofList ·.name) := by
  rw [ofList_eq, pieces_intercalate h, texts, List.map_map, List.map_map]
  exact List.map_congr_left fun p _ => p.declares.name

end list

end Parameter

end HeaderReflection
