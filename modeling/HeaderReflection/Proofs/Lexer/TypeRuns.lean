import HeaderReflection.Lexer.TypeText

/-! # Runs of types

A type consists of qualifiers, a run, and trailers.  The run is read character by character up to a blank
outside of brackets, and each character changes the counts of open brackets and nothing else (`TypeStep`).

* A text is a run if its characters leave nothing open (`IsTypeRun`).  It is so whatever follows it.
* A run ends at a blank or at the end of the text (`EndsType`).
* A reader takes a run up to there and nothing else (`typeRun_eq_ok`).
* A run has no blanks at its end (`IsTypeRun.eq_nil_of_append`), since a blank belongs to it only where
  something is open.

At the end of the module the parts of a type are put together: what a reader answers is told by what is left
behind the qualifiers, behind the run, and behind the trailers (`answer_typeText_eq_ok`). -/

namespace HeaderReflection.Lexer

open Text

/-! ### Steps and runs -/

/-- The character `c` goes on with the run of a type where the counts are `d`: the counts behind it. -/
inductive TypeStep (d : Depths) (c : Char) : Depths → Prop where
  | opens {b : Bracket} (hopener : (Bracket.ofOpener? c).filter (· ≠ .curly) = some b) : TypeStep d c (d.opened b)
  | closes {e : Depths} {b : Bracket} (hopener : (Bracket.ofOpener? c).filter (· ≠ .curly) = none)
      (hcloser : (Bracket.ofCloser? c).filter (· ≠ .curly) = some b) (hclosed : d.closed? b = some e) : TypeStep d c e
  | plain (hopener : (Bracket.ofOpener? c).filter (· ≠ .curly) = none)
      (hcloser : (Bracket.ofCloser? c).filter (· ≠ .curly) = none) (hends : (isBlank c && d.isZero) = false) :
      TypeStep d c d

/-- From the counts `d` on, the text is read character by character, and nothing is open behind it. -/
inductive IsTypeRun : Depths → List Char → Prop where
  | nil {d : Depths} (hzero : d.isZero = true) : IsTypeRun d []
  | cons {d e : Depths} {c : Char} {s : List Char} (hc : TypeStep d c e) (hs : IsTypeRun e s) : IsTypeRun d (c :: s)

/-- What may follow the run of a type: nothing, or a blank. -/
def EndsType (r : List Char) : Prop := ∀ b ∈ r.head?, isBlank b = true

variable {d e : Depths} {b c : Char} {r s t u w : List Char}

theorem EndsType.cons (hb : isBlank b = true) (t : List Char) : EndsType (b :: t) := by
  rintro _ ⟨⟩
  exact hb

theorem EndsType.append (hr : EndsType r) (ht : EndsType t) : EndsType (r ++ t) := by
  cases r with
  | nil => exact ht
  | cons b r => exact hr

theorem EndsType.of_append (h : EndsType (r ++ t)) : EndsType r := by
  cases r with
  | nil => exact nofun
  | cons b r => exact h

theorem EndsType.of_blank (hr : isBlankText r = true) : EndsType r := fun b hb =>
  List.all_eq_true.mp hr b (List.mem_of_mem_head? hb)

theorem ofOpener?_of_isBlank (hb : isBlank b = true) : Bracket.ofOpener? b = none := by
  refine Option.eq_none_iff_forall_not_mem.mpr fun a ha => ?_
  obtain rfl : a.opener = b := by simpa using List.find?_some ha
  revert hb
  cases a
  all_goals decide

theorem ofCloser?_of_isBlank (hb : isBlank b = true) : Bracket.ofCloser? b = none := by
  refine Option.eq_none_iff_forall_not_mem.mpr fun a ha => ?_
  obtain rfl : a.closer = b := by simpa using List.find?_some ha
  revert hb
  cases a
  all_goals decide

theorem TypeStep.typeRun_eq (h : TypeStep d c e) (s : List Char) : typeRun d (c :: s) = typeRun e s := by
  rw [typeRun]
  cases h with
  | opens hopener => rw [hopener]
  | closes hopener hcloser hclosed =>
      rw [hopener, hcloser]
      dsimp only
      rw [hclosed]
  | plain hopener hcloser hends =>
      rw [hopener, hcloser]
      exact if_neg (Bool.eq_false_iff.mp hends)

theorem EndsType.typeRun_eq (hr : EndsType r) (hzero : d.isZero = true) : typeRun d r = .ok r := by
  cases r with
  | nil => exact if_pos hzero
  | cons b t =>
      have hb : isBlank b = true := hr b rfl
      rw [typeRun, ofOpener?_of_isBlank hb, ofCloser?_of_isBlank hb]
      exact if_pos (by rw [hb, hzero]; rfl)

theorem exists_isTypeRun (h : typeRun d s = .ok r) : ∃ w, s = w ++ r ∧ IsTypeRun d w ∧ EndsType r := by
  induction s generalizing d with
  | nil =>
      unfold typeRun at h
      split at h
      · rename_i hzero
        cases h
        exact ⟨[], rfl, .nil hzero, nofun⟩
      · cases h
  | cons c s ih =>
      have honward : ∀ {e : Depths}, TypeStep d c e → ∃ w, c :: s = w ++ r ∧ IsTypeRun d w ∧ EndsType r := by
        intro e hc
        obtain ⟨w, rfl, hw, hr⟩ := ih ((hc.typeRun_eq s).symm.trans h)
        exact ⟨c :: w, rfl, .cons hc hw, hr⟩
      cases hopener : (Bracket.ofOpener? c).filter (· ≠ .curly) with
      | some b => exact honward (.opens hopener)
      | none =>
          cases hcloser : (Bracket.ofCloser? c).filter (· ≠ .curly) with
          | some b =>
              cases hclosed : d.closed? b with
              | some e => exact honward (.closes hopener hcloser hclosed)
              | none =>
                  rw [typeRun, hopener, hcloser] at h
                  dsimp only at h
                  rw [hclosed] at h
                  cases h
          | none =>
              cases hends : isBlank c && d.isZero with
              | false => exact honward (.plain hopener hcloser hends)
              | true =>
                  obtain ⟨hblank, hzero⟩ := Bool.and_eq_true_iff.mp hends
                  have hr : EndsType (c :: s) := .cons hblank s
                  obtain rfl := Except.ok.inj ((hr.typeRun_eq hzero).symm.trans h)
                  exact ⟨[], rfl, .nil hzero, hr⟩

theorem IsTypeRun.typeRun_eq (hw : IsTypeRun d w) (hr : EndsType r) : typeRun d (w ++ r) = .ok r := by
  induction hw with
  | nil hzero => exact hr.typeRun_eq hzero
  | cons hc _ ih => exact (hc.typeRun_eq _).trans ih

/-- A run is read up to a blank or to the end. -/
theorem typeRun_eq_ok : typeRun d s = .ok r ↔ ∃ w, s = w ++ r ∧ IsTypeRun d w ∧ EndsType r := by
  refine ⟨exists_isTypeRun, ?_⟩
  rintro ⟨w, rfl, hw, hr⟩
  exact hw.typeRun_eq hr

theorem typeRun_suffix (h : typeRun d s = .ok r) : r <:+ s := by
  obtain ⟨w, rfl, -, -⟩ := typeRun_eq_ok.mp h
  exact List.suffix_append w r

/-! ### Blanks -/

theorem TypeStep.of_blank (h : TypeStep d b e) (hb : isBlank b = true) : e = d ∧ d.isZero = false := by
  cases h with
  | opens hopener =>
      rw [ofOpener?_of_isBlank hb] at hopener
      cases hopener
  | closes _ hcloser =>
      rw [ofCloser?_of_isBlank hb] at hcloser
      cases hcloser
  | plain _ _ hends =>
      rw [hb, Bool.true_and] at hends
      exact ⟨rfl, hends⟩

theorem IsTypeRun.of_blank (h : IsTypeRun d u) (hu : isBlankText u = true) : u = [] ∧ d.isZero = true := by
  induction u with
  | nil =>
      cases h with
      | nil hzero => exact ⟨rfl, hzero⟩
  | cons b u ih =>
      obtain ⟨hb, hu⟩ := Bool.and_eq_true_iff.mp hu
      cases h with
      | cons hc hs =>
          obtain ⟨rfl, hopen⟩ := hc.of_blank hb
          rw [(ih hs hu).2] at hopen
          cases hopen

/-- A run has no blanks at its end. -/
theorem IsTypeRun.eq_nil_of_append (h : IsTypeRun d (s ++ u)) (hu : isBlankText u = true) : u = [] := by
  induction s generalizing d with
  | nil => exact (h.of_blank hu).1
  | cons c s ih =>
      cases h with
      | cons hc hs => exact ih hs

/-! ### Whole types -/

theorem answer_typeText (s : List Char) :
    typeText.answer s = match typeRun {} (skipWords typeQualifiers (trimLeft s)) with
      | .ok rest =>
        (.ok (Text.trim (taken (trimLeft s) (skipWords typeTrailers rest))), skipWords typeTrailers rest)
      | .error e => (.error e, skipWords typeQualifiers (trimLeft s)) := by
  show (match typeRun {} (skipWords typeQualifiers (trimLeft s)) with | _ => _ : Lexer (List Char)).answer
    (skipWords typeQualifiers (trimLeft s)) = _
  cases typeRun {} (skipWords typeQualifiers (trimLeft s)) with
  | error e => rfl
  | ok rest => rfl

theorem answer_typeText_eq_ok {a : List Char} : typeText.answer s = (.ok a, t) ↔
    ∃ rest, typeRun {} (skipWords typeQualifiers (trimLeft s)) = .ok rest ∧ t = skipWords typeTrailers rest ∧
      a = Text.trim (taken (trimLeft s) t) := by
  rw [answer_typeText]
  cases typeRun {} (skipWords typeQualifiers (trimLeft s)) with
  | error e => exact ⟨nofun, nofun⟩
  | ok rest =>
      constructor
      · intro h
        obtain ⟨ha, rfl⟩ := Prod.mk.inj h
        exact ⟨rest, rfl, rfl, (Except.ok.inj ha).symm⟩
      · rintro ⟨_, ⟨⟩, rfl, rfl⟩
        rfl

end HeaderReflection.Lexer
