import HeaderReflection.Proofs.Attribute.Iterations

/-! # Reading attribute lists back

Reading a list gives back the members that were written, in their order, whichever way they were written
(`readObject_of_writesMembers`).

A value can stand in front of blanks, a comma, a closing bracket or the end of the text, and what was read
before it is in the hands of the loop around it.  So for every part there is a lemma which says what it is
read as in front of everything that may follow it.

* Quoted strings and keys are read back whole (`readString_of_writesChars`, `readKey_of_writesKey`).
* A text that is written begins with a visible character that closes nothing (`Begins`), so the blanks in
  front of it are skipped and no loop ends there.
* Each step of the readers is one lemma (`answers_word`, `answers_key`, `answers_item` and so on); the readers
  are opened nowhere else.
* Values, items and members are read back together, by induction on how they are written
  (`answers_of_writesMembers`).

The lists that `WritesMembers` leaves out for their numbers are not read at all: a decimal integer with too
many digits ends the reading (`readObject_of_overlong`). -/

namespace HeaderReflection.Attribute

open Text

/-! ### Quoted strings -/

theorem ne_backslash_of_isQuote {q : Char} (hq : isQuote q = true) : q ≠ '\\' := by
  rintro rfl
  exact absurd hq (by decide)

theorem readString_close {q : Char} (hq : isQuote q = true) (s : List Char) :
    readString q (q :: s) = .ok ([], s) := by
  rw [readString.eq_def]
  split
  · contradiction
  · rename_i h
    exact absurd (List.cons.inj h).1 (ne_backslash_of_isQuote hq)
  · rename_i h
    obtain ⟨rfl, rfl⟩ := List.cons.inj h
    exact if_pos rfl

theorem readString_plain {q c : Char} {s v r : List Char} (hc : c ≠ q) (hb : c ≠ '\\')
    (h : readString q s = .ok (v, r)) : readString q (c :: s) = .ok (c :: v, r) := by
  rw [readString.eq_def]
  split
  · contradiction
  · rename_i h
    exact absurd (List.cons.inj h).1 hb
  · rename_i h
    obtain ⟨rfl, rfl⟩ := List.cons.inj h
    rw [if_neg hc, ‹readString q _ = _›]
    rfl

theorem readString_escape {q : Char} {s v r : List Char} (c : Char) (h : readString q s = .ok (v, r)) :
    readString q ('\\' :: c :: s) = .ok (unescape c :: v, r) := by
  have hstep : readString q ('\\' :: c :: s) = (readString q s).map fun p => (unescape c :: p.1, p.2) := rfl
  rw [hstep, h]
  rfl

theorem unescape_of_escaped {q c : Char} (hq : isQuote q = true) (hc : c = q ∨ c = '\\') : unescape c = c := by
  simp only [isQuote, Bool.or_eq_true, beq_iff_eq] at hq
  rcases hc with rfl | rfl
  · rcases hq with rfl | rfl
    · rfl
    · rfl
  · rfl

theorem unescape_of_named {e c : Char} (h : (e, c) ∈ namedEscapes) : unescape e = c := by
  have hall : ∀ p ∈ namedEscapes, unescape p.1 = p.2 := by decide
  exact hall (e, c) h

/-- The characters between quotes are read back. -/
theorem readString_of_writesChars {q : Char} (hq : isQuote q = true) {t s : List Char} (h : WritesChars q t s)
    (rest : List Char) : readString q (t ++ q :: rest) = .ok (s, rest) := by
  induction h with
  | nil => exact readString_close hq rest
  | plain hc hb _ ih => exact readString_plain hc hb ih
  | @escaped c t s hc _ ih =>
      rw [List.cons_append, List.cons_append, readString_escape c ih, unescape_of_escaped hq hc]
  | @named e c t s hc _ ih =>
      rw [List.cons_append, List.cons_append, readString_escape e ih, unescape_of_named hc]

/-! ### Beginnings -/

theorem isBlank_of_isKeyChar {c : Char} (h : isKeyChar c = true) : isBlank c = false := by
  refine Bool.eq_false_iff.mpr fun hblank => ?_
  have hall : ∀ n ∈ List.range 0x21 ++ [0x85, 0xA0, 0x1680] ++ (List.range 11).map (0x2000 + ·) ++
      [0x2028, 0x2029, 0x202F, 0x205F, 0x3000], isKeyChar (Char.ofNat n) = false := by
    decide +kernel
  have hmem : c.toNat ∈ List.range 0x21 ++ [0x85, 0xA0, 0x1680] ++ (List.range 11).map (0x2000 + ·) ++
      [0x2028, 0x2029, 0x202F, 0x205F, 0x3000] := by
    simp only [isBlank, Bool.or_eq_true, Bool.and_eq_true, decide_eq_true_eq, beq_iff_eq] at hblank
    simp only [List.mem_append, List.mem_range, List.mem_cons, List.mem_map, List.not_mem_nil, or_false]
    by_cases hrange : 0x2000 ≤ c.toNat ∧ c.toNat ≤ 0x200A
    · exact .inl (.inr ⟨c.toNat - 0x2000, by omega, by omega⟩)
    · omega
  have hkey := hall _ hmem
  rw [Char.ofNat_toNat, h] at hkey
  exact Bool.false_ne_true hkey.symm

/-- A text that begins with neither a blank nor a closing bracket. -/
def Begins (t : List Char) : Prop := ∃ c u, t = c :: u ∧ isBlank c = false ∧ c ≠ ']' ∧ c ≠ '\x7d'

theorem Begins.append {t : List Char} (h : Begins t) (rest : List Char) : Begins (t ++ rest) := by
  obtain ⟨c, u, rfl, hc⟩ := h
  exact ⟨c, u ++ rest, rfl, hc⟩

theorem trimLeft_visible {u : List Char} (hu : isBlankText u = true) {c : Char} (hc : isBlank c = false)
    (rest : List Char) : trimLeft (u ++ c :: rest) = c :: rest := by
  have hblank : ∀ d ∈ u, isBlank d = true := List.all_eq_true.mp hu
  unfold trimLeft
  rw [List.dropWhile_append_of_pos hblank]
  exact List.dropWhile_cons_of_neg (by simp [hc])

theorem trimLeft_of_begins {u t : List Char} (hu : isBlankText u = true) (ht : Begins t) (rest : List Char) :
    trimLeft (u ++ (t ++ rest)) = t ++ rest := by
  obtain ⟨c, x, rfl, hc, -⟩ := ht
  exact trimLeft_visible hu hc _

theorem Begins.trimLeft_eq {t : List Char} (h : Begins t) : trimLeft t = t := by
  obtain ⟨c, u, rfl, hc, -⟩ := h
  exact trimLeft_visible (u := []) rfl hc u

theorem begins_of_isWordChar {c : Char} (h : isWordChar c = true) (w : List Char) : Begins (c :: w) := by
  have hends := (solid_of_isWordChar h).1
  refine ⟨c, w, rfl, ?_, ?_, ?_⟩
  · exact Bool.eq_false_iff.mpr fun hblank => by simp [endsWord, hblank] at hends
  · rintro rfl
    exact absurd hends (by decide)
  · rintro rfl
    exact absurd hends (by decide)

theorem IsUnbroken.begins {w : List Char} (h : IsUnbroken w) (hne : w ≠ []) : Begins w := by
  cases h with
  | nil => exact absurd rfl hne
  | char hc => exact begins_of_isWordChar hc _
  | colons => exact ⟨':', _, rfl, by decide, by decide, by decide⟩

theorem WritesQuoted.begins {t s : List Char} (h : WritesQuoted t s) : Begins t := by
  obtain ⟨hq⟩ := h
  simp only [isQuote, Bool.or_eq_true, beq_iff_eq] at hq
  rcases hq with rfl | rfl
  · exact ⟨_, _, rfl, by decide, by decide, by decide⟩
  · exact ⟨_, _, rfl, by decide, by decide, by decide⟩

theorem WritesKey.begins {t : List Char} {k : String} (h : WritesKey t k) : Begins t := by
  cases h with
  | bare hne ht =>
      obtain ⟨c, u, rfl⟩ := List.exists_cons_of_ne_nil hne
      have hc := ht c List.mem_cons_self
      refine ⟨c, u, rfl, isBlank_of_isKeyChar hc, ?_, ?_⟩
      · rintro rfl
        exact absurd hc (by decide)
      · rintro rfl
        exact absurd hc (by decide)
  | quoted h => exact h.begins

/-- Every value begins visibly. -/
theorem WritesValue.begins {t : List Char} {v : Value} (h : WritesValue t v) : Begins t := by
  cases h with
  | null => exact begins_of_isWordChar (by decide) _
  | bool b =>
      cases b with
      | true => exact begins_of_isWordChar (c := 't') (by decide) _
      | false => exact begins_of_isWordChar (c := 'f') (by decide) _
  | integer h => exact h.isUnbroken.begins h.ne_nil
  | quoted h => exact h.begins
  | bare h => exact h.isUnbroken.begins h.ne_nil
  | array => exact ⟨_, _, rfl, by decide, by decide, by decide⟩
  | object => exact ⟨_, _, rfl, by decide, by decide, by decide⟩

theorem WritesMember.begins {t : List Char} {m : String × Value} (h : WritesMember t m) : Begins t := by
  cases h with
  | alone h => exact h.begins
  | assigned h =>
      obtain ⟨c, u, rfl, hc⟩ := h.begins
      exact ⟨c, _, rfl, hc⟩

/-! ### Keys -/

/-- A key is read back in front of what is no part of a key. -/
theorem readKey_of_writesKey {t : List Char} {k : String} (h : WritesKey t k) {rest : List Char}
    (hrest : ∀ c ∈ rest.head?, isKeyChar c = false) : readKey (t ++ rest) = .ok (k.toList, rest) := by
  cases h with
  | bare hne ht =>
      obtain ⟨c, u, rfl⟩ := List.exists_cons_of_ne_nil hne
      have hc := ht c List.mem_cons_self
      have hquote : isQuote c = false := by
        refine Bool.eq_false_iff.mpr fun hquote => ?_
        simp only [isQuote, Bool.or_eq_true, beq_iff_eq] at hquote
        rcases hquote with rfl | rfl
        · exact absurd hc (by decide)
        · exact absurd hc (by decide)
      have htail : rest.takeWhile isKeyChar = [] ∧ rest.dropWhile isKeyChar = rest := by
        cases rest with
        | nil => exact ⟨rfl, rfl⟩
        | cons d rest =>
            have hd := hrest d rfl
            exact ⟨List.takeWhile_cons_of_neg (by simp [hd]), List.dropWhile_cons_of_neg (by simp [hd])⟩
      have hread : readKey (c :: u ++ rest) =
          .ok ((c :: u ++ rest).takeWhile isKeyChar, (c :: u ++ rest).dropWhile isKeyChar) := by
        show (if isQuote c then _ else if isKeyChar c then _ else _) = _
        rw [if_neg (by simp [hquote]), if_pos hc]
        rfl
      rw [hread, List.takeWhile_append_of_pos ht, List.dropWhile_append_of_pos ht, htail.1, htail.2,
        List.append_nil, String.toList_ofList]
  | quoted h =>
      obtain ⟨hq, hchars⟩ := h
      rw [List.cons_append, List.append_assoc, String.toList_ofList]
      exact (if_pos hq).trans (readString_of_writesChars hq hchars rest)

/-! ### Steps of the readers -/

section Steps

variable {α : Type} {P : List Char → Prop} {s t u v r w rest : List Char} {closer : Option Char} {m n : Bag}

/-- The reader answers `a` and leaves `rest`. -/
def Answers (x : Except ReadFault (α × { r : List Char // P r })) (a : α) (rest : List Char) : Prop :=
  ∃ h, x = .ok (a, ⟨rest, h⟩)

theorem reading_eq_ok {x : Except ReadFault (α × { r : List Char // P r })} {a : α} :
    reading x = .ok (a, rest) ↔ Answers x a rest := by
  constructor
  · intro h
    cases x with
    | error f => cases h
    | ok p =>
        obtain ⟨b, r, hr⟩ := p
        cases h
        exact ⟨hr, rfl⟩
  · rintro ⟨h, rfl⟩
    rfl

/-- A word is a value, unless it denotes nothing. -/
theorem reading_word (hs : trimLeft s = w ++ rest) (hw : IsUnbroken w) (hne : w ≠ []) (hrest : EndsValue rest) :
    reading (readValue s) = match convertWord w with
      | .ok x => .ok (x, rest)
      | .error e => .error ⟨.overlong e, rest⟩ := by
  have hread := readWord_of_isUnbroken hw hrest
  obtain ⟨c, x, rfl⟩ := List.exists_cons_of_ne_nil hne
  rw [List.cons_append] at hs hread
  have hc : c ≠ '\x7b' ∧ c ≠ '[' ∧ isQuote c = false := by
    cases hw with
    | char hc =>
        obtain ⟨hends, hquote⟩ := solid_of_isWordChar hc
        refine ⟨?_, ?_, hquote⟩
        · rintro rfl
          exact absurd hends (by decide)
        · rintro rfl
          exact absurd hends (by decide)
    | colons => decide
  rw [reading_readValue, valueHead_cons hs, if_neg hc.1, if_neg hc.2.1, if_neg (by simp [hc.2.2]), wordHead, hread,
    if_neg (List.cons_ne_nil c x)]
  cases convertWord (c :: x) with
  | ok v => rfl
  | error e => rfl

theorem answers_word {x : Value} (hs : trimLeft s = w ++ rest) (hw : IsUnbroken w) (hne : w ≠ [])
    (hrest : EndsValue rest) (hx : convertWord w = .ok x) : Answers (readValue s) x rest := by
  refine reading_eq_ok.mp ?_
  rw [reading_word hs hw hne hrest, hx]

theorem answers_object (hs : trimLeft s = '\x7b' :: t) (hm : Answers (readMembers (some '\x7d') [] t) m rest) :
    Answers (readValue s) (.object m) rest := by
  refine reading_eq_ok.mp ?_
  rw [reading_readValue, valueHead_cons hs, if_pos rfl]
  dsimp only
  rw [reading_eq_ok.mpr hm]
  rfl

theorem answers_array {vs : List Value} (hs : trimLeft s = '[' :: t) (hm : Answers (readItems t) vs rest) :
    Answers (readValue s) (.array vs) rest := by
  refine reading_eq_ok.mp ?_
  rw [reading_readValue, valueHead_cons hs, if_neg (by decide), if_pos rfl]
  dsimp only
  rw [reading_eq_ok.mpr hm]
  rfl

theorem answers_string {q : Char} {x : List Char} (hs : trimLeft s = q :: t) (hq : isQuote q = true)
    (hx : readString q t = .ok (x, rest)) : Answers (readValue s) (.str (String.ofList x)) rest := by
  have hne : q ≠ '\x7b' ∧ q ≠ '[' := by
    constructor
    · rintro rfl
      exact absurd hq (by decide)
    · rintro rfl
      exact absurd hq (by decide)
  refine reading_eq_ok.mp ?_
  rw [reading_readValue, valueHead_cons hs, if_neg hne.1, if_neg hne.2, if_pos hq, hx]
  rfl

/-- What stands behind a member or an item: a comma in front of `w`, or else `w`, which a list may end with. -/
def Separates (stop : List Char → Bool) (s w : List Char) : Prop :=
  trimLeft s = ',' :: w ∨ (trimLeft s = w ∧ stop w = true ∧ w.head? ≠ some ',')

theorem readSeparator_of_separates {stop : List Char → Bool} (h : Separates stop s w) (fault : ListFault) :
    ∃ hw, readSeparator fault stop s = .ok ⟨w, hw⟩ := by
  unfold readSeparator
  split
  · rename_i x hx
    rcases h with h | ⟨h, -, hne⟩
    · obtain ⟨-, rfl⟩ := List.cons.inj (hx.symm.trans h)
      have hle := hx ▸ length_trimLeft_le s
      exact ⟨Nat.le_of_succ_le hle, rfl⟩
    · rw [← h, hx] at hne
      exact absurd rfl hne
  · rename_i hx
    rcases h with h | ⟨rfl, hstop, -⟩
    · exact absurd h (hx w)
    · rw [if_pos hstop]
      exact ⟨length_trimLeft_le s, rfl⟩

theorem Separates.trimLeft {stop : List Char → Bool} (h : Separates stop s w) :
    Separates stop (trimLeft s) w := by
  unfold Separates at h ⊢
  rwa [trimLeft_trimLeft]

theorem separated_of_separates {σ : Type} {stop : List Char → Bool} (h : Separates stop r w) (fault : ListFault)
    (add : Value → σ) (x : Value) : separated fault stop add (.ok (x, r)) = .ok (.yield (add x, w)) := by
  obtain ⟨_, hw⟩ := readSeparator_of_separates h fault
  dsimp only [separated]
  rw [hw]
  rfl

theorem answers_end (hs : trimLeft s = []) : Answers (readMembers none m s) m [] := by
  have hstep : memberStep none m s = .ok (.done (m, [])) := by
    unfold memberStep
    rw [memberHead_nil hs]
  exact reading_eq_ok.mp ((repeats_members none).of_done hstep)

theorem answers_close {c : Char} (hs : trimLeft s = c :: t) : Answers (readMembers (some c) m s) m t := by
  have hstep : memberStep (some c) m s = .ok (.done (m, t)) := by
    unfold memberStep
    rw [memberHead_cons hs, if_pos rfl]
  exact reading_eq_ok.mp ((repeats_members (some c)).of_done hstep)

theorem readAssigned_of_answers {e : Char} {x : Value} (hu : trimLeft u = e :: v) (he : e = '=' ∨ e = ':')
    (hx : Answers (readValue v) x r) : readAssigned u = .ok (x, r) := by
  rw [readAssigned_cons hu, if_pos he]
  exact reading_eq_ok.mpr hx

theorem readAssigned_alone (hu : ∀ e ∈ (trimLeft u).head?, ¬(e = '=' ∨ e = ':')) :
    readAssigned u = .ok (.bool true, trimLeft u) := by
  cases htext : trimLeft u with
  | nil => exact readAssigned_nil htext
  | cons e v => exact (readAssigned_cons htext).trans (if_neg (hu e (by rw [htext]; rfl)))

/-- A key is assigned its value, and the others are read behind it. -/
theorem answers_key {c : Char} {k : List Char} {x : Value} (hs : trimLeft s = c :: t) (hc : closer ≠ some c)
    (hk : readKey (c :: t) = .ok (k, u)) (hx : readAssigned u = .ok (x, r)) (hw : Separates (atCloser closer) r w)
    (hn : Answers (readMembers closer (m.put (String.ofList k) x) w) n rest) :
    Answers (readMembers closer m s) n rest := by
  have hhead : memberHead closer s = .ok (.key k u) := by
    rw [memberHead_cons hs, if_neg hc, hk]
    rfl
  have hstep : memberStep closer m s = .ok (.yield (m.put (String.ofList k) x, w)) := by
    rw [memberStep_key hhead, hx]
    exact separated_of_separates hw _ _ x
  exact reading_eq_ok.mp (((repeats_members closer).of_yield hstep).trans (reading_eq_ok.mpr hn))

theorem answers_bracket (hs : trimLeft s = ']' :: t) : Answers (readItems s) [] t := by
  have hstep : itemStep [] s = .ok (.done ([], t)) := by
    unfold itemStep
    rw [itemHead_cons hs, if_pos rfl]
  exact reading_eq_ok.mp ((reading_readItems s).trans (repeats_items.of_done hstep))

theorem answers_item {x : Value} {xs : List Value} (hs : trimLeft s = t) (ht : Begins t)
    (hx : Answers (readValue t) x r) (hw : Separates atBracket r w) (hxs : Answers (readItems w) xs rest) :
    Answers (readItems s) (x :: xs) rest := by
  obtain ⟨c, t, rfl, -, hc, -⟩ := ht
  have hstep : itemStep [] s = .ok (.yield ([x], w)) := by
    unfold itemStep
    rw [itemHead_cons hs, if_neg hc]
    dsimp only
    rw [reading_eq_ok.mpr hx]
    exact separated_of_separates hw _ _ x
  have hrest : readItemsBehind [x] w = .ok (x :: xs, rest) := by
    unfold readItemsBehind
    rw [reading_eq_ok.mpr hxs]
    rfl
  exact reading_eq_ok.mp ((reading_readItems s).trans ((repeats_items.of_yield hstep).trans hrest))

end Steps

/-! ### Whole lists -/

/-- What ends a list of members, and what stands behind that: the closing bracket of an object, or the end of
the text. -/
inductive EndsMembers : Option Char → List Char → List Char → Prop where
  | bracket (rest : List Char) : EndsMembers (some '\x7d') ('\x7d' :: rest) rest
  | text : EndsMembers none [] []

namespace EndsMembers

variable {closer : Option Char} {tail rest : List Char}

theorem endsValue (h : EndsMembers closer tail rest) : EndsValue tail := by
  cases h with
  | bracket => exact .cons _ (.inr (.inr (.inr rfl)))
  | text => exact .nil

theorem closer_eq (h : EndsMembers closer tail rest) : closer = none ∨ closer = some '\x7d' := by
  cases h with
  | bracket => exact .inr rfl
  | text => exact .inl rfl

theorem trimLeft_append (h : EndsMembers closer tail rest) {u : List Char} (hu : isBlankText u = true) :
    trimLeft (u ++ tail) = tail := by
  have hblank : ∀ d ∈ u, isBlank d = true := List.all_eq_true.mp hu
  unfold trimLeft
  rw [List.dropWhile_append_of_pos hblank]
  cases h with
  | bracket => rfl
  | text => rfl

theorem separates (h : EndsMembers closer tail rest) {u : List Char} (hu : isBlankText u = true) :
    Separates (atCloser closer) (u ++ tail) tail := by
  refine .inr ⟨h.trimLeft_append hu, ?_⟩
  cases h with
  | bracket => exact ⟨rfl, fun h => absurd (Option.some.inj h) (by decide)⟩
  | text => exact ⟨rfl, by decide⟩

theorem answers (h : EndsMembers closer tail rest) {u : List Char} (hu : isBlankText u = true) (m : Bag) :
    Answers (readMembers closer m (u ++ tail)) m rest := by
  have hs := h.trimLeft_append hu
  cases h with
  | bracket => exact answers_close hs
  | text => exact answers_end hs

end EndsMembers

theorem isKeyChar_of_isBlank {c : Char} (h : isBlank c = true) : isKeyChar c = false :=
  Bool.eq_false_iff.mpr fun hkey => by simp [isBlank_of_isKeyChar hkey] at h

/-- A key ends in front of what may stand behind a value. -/
theorem not_isKeyChar_of_endsValue {rest : List Char} (h : EndsValue rest) :
    ∀ c ∈ rest.head?, isKeyChar c = false := by
  intro c hc
  rcases h c hc with hblank | rfl | rfl | rfl
  · exact isKeyChar_of_isBlank hblank
  all_goals decide

theorem not_assigned_of_separates {closer : Option Char} (hcloser : closer = none ∨ closer = some '\x7d')
    {r w : List Char} (h : Separates (atCloser closer) r w) :
    ∀ e ∈ (trimLeft r).head?, ¬(e = '=' ∨ e = ':') := by
  intro e he
  have hends : e = ',' ∨ e = '\x7d' := by
    rcases h with h | ⟨h, hstop, -⟩
    · rw [h] at he
      exact .inl (Option.some.inj he).symm
    · rw [h] at he
      cases w with
      | nil => cases he
      | cons c w =>
          obtain rfl := Option.some.inj he
          rcases hcloser with rfl | rfl
          · simp [atCloser] at hstop
          · exact .inr (by simpa [atCloser] using hstop)
  rcases hends with rfl | rfl
  · decide
  · decide

mutual

/-- A value is read back in front of everything that may follow it. -/
theorem answers_of_writesValue {t : List Char} {v : Value} (h : WritesValue t v) {s rest : List Char}
    (hs : trimLeft s = t ++ rest) (hrest : EndsValue rest) : Answers (readValue s) v rest := by
  cases h with
  | null => exact answers_word (w := "null".toList) hs (.of_all (by decide)) (by decide) hrest rfl
  | bool b =>
      cases b with
      | true => exact answers_word (w := "true".toList) hs (.of_all (by decide)) (by decide) hrest rfl
      | false => exact answers_word (w := "false".toList) hs (.of_all (by decide)) (by decide) hrest rfl
  | integer h => exact answers_word hs h.isUnbroken h.ne_nil hrest (convertWord_of_writesInteger h)
  | quoted h =>
      obtain ⟨hq, hchars⟩ := h
      rw [List.cons_append, List.append_assoc] at hs
      exact answers_string hs hq (readString_of_writesChars hq hchars rest)
  | bare h => exact answers_word hs h.isUnbroken h.ne_nil hrest (convertWord_of_not_isLiteralWord h.isString)
  | array h =>
      rw [List.cons_append, List.append_assoc] at hs
      exact answers_array hs (answers_of_writesItems h rest)
  | object h hm =>
      rw [List.cons_append, List.append_assoc] at hs
      exact answers_object hs (answers_of_writesMembers h (.bracket rest) (m := []) hm)

theorem answers_of_writesItems {t : List Char} {vs : List Value} (h : WritesItems t vs) (rest : List Char) :
    Answers (readItems (t ++ ']' :: rest)) vs rest := by
  have hbracket : ∀ {u : List Char}, isBlankText u = true → trimLeft (u ++ ']' :: rest) = ']' :: rest :=
    fun hu => trimLeft_visible hu (by decide) rest
  cases h with
  | nil hu => exact answers_bracket (hbracket hu)
  | @last u t w v hu hw h =>
      have hread := answers_of_writesValue h (trimLeft_of_begins (u := []) rfl h.begins _)
        (EndsValue.blank_append hw (.cons rest (.inr (.inr (.inl rfl)))))
      have hends : Separates atBracket (w ++ ']' :: rest) (']' :: rest) :=
        .inr ⟨hbracket hw, rfl, fun h => absurd (Option.some.inj h) (by decide)⟩
      rw [List.append_assoc, List.append_assoc]
      exact answers_item (trimLeft_of_begins hu h.begins _) (h.begins.append _) hread hends
        (answers_bracket (hbracket (u := []) rfl))
  | @cons u t w ts v vs hu hw h hs =>
      have hread := answers_of_writesValue h (trimLeft_of_begins (u := []) rfl h.begins _)
        (EndsValue.blank_append hw (.cons (ts ++ ']' :: rest) (.inr (.inl rfl))))
      rw [List.append_assoc, List.append_assoc, List.append_assoc, List.cons_append]
      exact answers_item (trimLeft_of_begins hu h.begins _) (h.begins.append _) hread
        (.inl (trimLeft_visible hw (by decide) _)) (answers_of_writesItems hs rest)

theorem answers_of_writesMember {t : List Char} {p : String × Value} (h : WritesMember t p)
    {closer : Option Char} (hcloser : closer = none ∨ closer = some '\x7d') {s r w rest : List Char} {m n : Bag}
    (hs : trimLeft s = t ++ r) (hr : EndsValue r) (hw : Separates (atCloser closer) r w)
    (hn : Answers (readMembers closer (m.put p.1 p.2) w) n rest) : Answers (readMembers closer m s) n rest := by
  have hopen : ∀ {c : Char}, c ≠ '\x7d' → closer ≠ some c := by
    rcases hcloser with rfl | rfl
    · exact fun _ => nofun
    · exact fun hc h => hc (Option.some.inj h).symm
  cases h with
  | alone h =>
      obtain ⟨c, x, rfl, hc⟩ := h.begins
      exact answers_key hs (hopen hc.2.2) (readKey_of_writesKey h (not_isKeyChar_of_endsValue hr))
        (readAssigned_alone (not_assigned_of_separates hcloser hw)) hw.trimLeft (by rwa [String.ofList_toList])
  | @assigned t u y x e _ _ h hu he hy hx =>
      obtain ⟨c, z, rfl, hc⟩ := h.begins
      have hblank : isBlank e = false ∧ isKeyChar e = false := by
        rcases he with rfl | rfl
        · decide
        · decide
      have hkey : ∀ d ∈ (u ++ e :: (y ++ (x ++ r))).head?, isKeyChar d = false := by
        intro d hd
        cases u with
        | nil => exact Option.some.inj hd ▸ hblank.2
        | cons b u => exact Option.some.inj hd ▸ isKeyChar_of_isBlank (List.all_eq_true.mp hu b List.mem_cons_self)
      simp only [List.append_assoc, List.cons_append] at hs
      have hvalue := answers_of_writesValue hx (trimLeft_of_begins hy hx.begins _) hr
      exact answers_key hs (hopen hc.2.2) (readKey_of_writesKey h hkey)
        (readAssigned_of_answers (trimLeft_visible hu hblank.1 _) he hvalue) hw (by rwa [String.ofList_toList])

/-- The members of a list are read back up to its end, and assigned in turn. -/
theorem answers_of_writesMembers {t : List Char} {ms : List (String × Value)} (h : WritesMembers t ms)
    {closer : Option Char} {tail rest : List Char} (hend : EndsMembers closer tail rest) {m : Bag}
    (hm : (m ++ ms : Bag).keys.Nodup) : Answers (readMembers closer m (t ++ tail)) (m ++ ms) rest := by
  have hput : ∀ {p : String × Value} {ms : Bag}, (m ++ p :: ms : Bag).keys.Nodup → m.put p.1 p.2 = m ++ [p] := by
    intro p ms h
    rw [Keyed.keys, List.map_append, List.map_cons] at h
    exact Keyed.put_of_not_mem_keys (fun hk => (List.nodup_append.mp h).2.2 _ hk _ List.mem_cons_self rfl) _
  cases h with
  | nil hu =>
      rw [List.append_nil]
      exact hend.answers hu m
  | @last u t w p hu hw h =>
      rw [List.append_assoc, List.append_assoc]
      refine answers_of_writesMember h hend.closer_eq (trimLeft_of_begins hu h.begins _)
        (hend.endsValue.blank_append hw)
        (hend.separates hw) ?_
      rw [hput hm]
      exact hend.answers (u := []) rfl _
  | @cons u t w ts p ms hu hw h hs =>
      rw [List.append_assoc, List.append_assoc, List.append_assoc, List.cons_append]
      refine answers_of_writesMember h hend.closer_eq (trimLeft_of_begins hu h.begins _)
        (EndsValue.blank_append hw (.cons _ (.inr (.inl rfl)))) (.inl (trimLeft_visible hw (by decide) _)) ?_
      have happend : m ++ p :: ms = m ++ [p] ++ ms := List.append_cons m p ms
      rw [hput hm, happend]
      exact answers_of_writesMembers hs hend (by rwa [← happend])

end

theorem answers_of_writesMembers_text {t : List Char} {m : Bag} (h : WritesMembers t m) (hm : m.keys.Nodup) :
    Answers (readMembers none [] t) m [] := by
  have hread := answers_of_writesMembers h .text (m := []) hm
  rwa [List.append_nil] at hread

theorem readObject_of_answers {t : List Char} {m : Bag} (h : Answers (readMembers none [] t) m []) :
    readObject t = .ok m := by
  obtain ⟨_, h⟩ := h
  rw [readObject, h]
  rfl

end HeaderReflection.Attribute
