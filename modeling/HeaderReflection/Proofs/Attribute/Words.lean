import HeaderReflection.Proofs.Attribute.Written

/-! # Words of attribute lists

A word is what stands in an attribute list without quotes.  It ends in front of what may stand behind a value,
and nowhere before (`readWord_of_isUnbroken`); a single colon ends a word too, but a double one is part of it,
which is why unbroken words are an inductive predicate and not a class of characters.

What a word denotes is told in both directions.

* It denotes the integer that it writes (`convertWord_of_writesInteger`), and a decimal integer with too many
  digits denotes nothing (`convertWord_of_overlong`).
* The readers of integers and fractions take nothing but what is written as an integer or a fraction
  (`isLiteralWord_of_integer?`, `writesFraction_of_fraction?`).  So a word that writes no literal denotes the
  string that it is (`convertWord_of_not_isLiteralWord`).

Signs, digits and letters are all characters of words, so what writes an integer is unbroken
(`WritesInteger.isUnbroken`), and so is a bare string (`IsBare.isUnbroken`). -/

namespace HeaderReflection.Attribute

open Text

/-! ### Where a word ends -/

/-- What may stand behind a value: blanks, a comma, a closing bracket, or nothing. -/
def EndsValue (rest : List Char) : Prop :=
  ∀ c ∈ rest.head?, isBlank c = true ∨ c = ',' ∨ c = ']' ∨ c = '\x7d'

theorem EndsValue.nil : EndsValue [] := fun _ hc => nomatch hc

theorem EndsValue.cons {c : Char} (rest : List Char) (hc : isBlank c = true ∨ c = ',' ∨ c = ']' ∨ c = '\x7d') :
    EndsValue (c :: rest) :=
  fun _ hd => Option.some.inj hd ▸ hc

theorem EndsValue.blank_append {u rest : List Char} (hu : isBlankText u = true) (h : EndsValue rest) :
    EndsValue (u ++ rest) := by
  cases u with
  | nil => exact h
  | cons c u => exact .cons _ (.inl (List.all_eq_true.mp hu c List.mem_cons_self))

theorem endsWord_of_endsValue {c : Char} {rest : List Char} (h : EndsValue (c :: rest)) :
    endsWord c = true ∧ c ≠ ':' := by
  rcases h c rfl with hc | rfl | rfl | rfl
  · refine ⟨by simp [endsWord, hc], ?_⟩
    rintro rfl
    exact absurd hc (by decide)
  all_goals decide

/-- Characters of words other than colons: letters, digits, underscores, points and signs. -/
def isWordChar (c : Char) : Bool := isBareChar c || c == '+' || c == '-'

theorem isBareChar_ascii {c : Char} (h : isBareChar c = true) : c.toNat < 128 := by
  simp only [isBareChar, isAsciiAlphanumeric, Bool.or_eq_true, Bool.and_eq_true, beq_iff_eq, decide_eq_true_eq,
    Char.le_def, UInt32.le_iff_toNat_le] at h
  have hz : ∀ d : Char, d.toNat < 128 → c.val.toNat ≤ d.val.toNat → c.toNat < 128 :=
    fun d hd hcd => Nat.lt_of_le_of_lt hcd hd
  rcases h with (((⟨-, h⟩ | ⟨-, h⟩) | ⟨-, h⟩) | rfl) | rfl
  · exact hz _ (by decide) h
  · exact hz _ (by decide) h
  · exact hz _ (by decide) h
  all_goals decide

theorem isWordChar_ascii {c : Char} (h : isWordChar c = true) : c.toNat < 128 := by
  simp only [isWordChar, Bool.or_eq_true, beq_iff_eq] at h
  rcases h with (h | rfl) | rfl
  · exact isBareChar_ascii h
  all_goals decide

/-- A character of a word neither ends it nor begins a literal. -/
theorem solid_of_isWordChar {c : Char} (h : isWordChar c = true) :
    endsWord c = false ∧ isQuote c = false := by
  have hall : ∀ n < 128, isWordChar (Char.ofNat n) = true →
      endsWord (Char.ofNat n) = false ∧ isQuote (Char.ofNat n) = false := by
    decide +kernel
  have hc := hall c.toNat (isWordChar_ascii h)
  rw [Char.ofNat_toNat] at hc
  exact hc h

/-! ### Unbroken words -/

/-- A word that goes on to its end: characters of words, and double colons. -/
inductive IsUnbroken : List Char → Prop where
  | nil : IsUnbroken []
  | char {c : Char} {w : List Char} (hc : isWordChar c = true) (h : IsUnbroken w) : IsUnbroken (c :: w)
  | colons {w : List Char} (h : IsUnbroken w) : IsUnbroken (':' :: ':' :: w)

theorem IsUnbroken.of_forall {w : List Char} (h : ∀ c ∈ w, isWordChar c = true) : IsUnbroken w := by
  induction w with
  | nil => exact .nil
  | cons c w ih =>
      obtain ⟨hc, hw⟩ := List.forall_mem_cons.mp h
      exact .char hc (ih hw)

theorem IsUnbroken.of_all {w : List Char} (h : w.all isWordChar = true) : IsUnbroken w :=
  .of_forall (List.all_eq_true.mp h)

theorem IsUnbroken.append {v w : List Char} (hv : IsUnbroken v) (hw : IsUnbroken w) : IsUnbroken (v ++ w) := by
  induction hv with
  | nil => exact hw
  | char hc _ ih => exact .char hc ih
  | colons _ ih => exact .colons ih

theorem readWord_of_endsWord {c : Char} (hends : endsWord c = true) (hcolon : c ≠ ':') (s : List Char) :
    readWord (c :: s) = ([], c :: s) := by
  unfold readWord
  split
  · contradiction
  · rename_i h
    exact absurd (List.cons.inj h).1 hcolon
  · rename_i h
    obtain ⟨rfl, rfl⟩ := List.cons.inj h
    rw [if_pos hends]

theorem readWord_of_not_endsWord {c : Char} (hends : endsWord c = false) (s : List Char) :
    readWord (c :: s) = (c :: (readWord s).1, (readWord s).2) := by
  have hcolon : c ≠ ':' := by
    rintro rfl
    exact absurd hends (by decide)
  rw [readWord.eq_def]
  split
  · contradiction
  · rename_i h
    exact absurd (List.cons.inj h).1 hcolon
  · rename_i h
    obtain ⟨rfl, rfl⟩ := List.cons.inj h
    rw [if_neg (by rw [hends]; exact Bool.false_ne_true)]

theorem readWord_colons (s : List Char) : readWord (':' :: ':' :: s) = (':' :: ':' :: (readWord s).1, (readWord s).2) :=
  rfl

/-- A word that goes on to its end is read whole. -/
theorem readWord_of_isUnbroken {w rest : List Char} (hw : IsUnbroken w) (hrest : EndsValue rest) :
    readWord (w ++ rest) = (w, rest) := by
  induction hw with
  | nil =>
      cases rest with
      | nil => rfl
      | cons c rest =>
          obtain ⟨hends, hcolon⟩ := endsWord_of_endsValue hrest
          exact readWord_of_endsWord hends hcolon rest
  | @char c w hc _ ih =>
      have hends := (solid_of_isWordChar hc).1
      rw [List.cons_append, readWord_of_not_endsWord hends, ih]
  | colons _ ih => rw [List.cons_append, List.cons_append, readWord_colons, ih]

theorem IsBare.isUnbroken {w : List Char} (h : IsBare w) : IsUnbroken w := by
  obtain ⟨runs, hruns, rfl⟩ := h.runs
  have hrun : ∀ r ∈ runs, IsUnbroken r := fun r hr =>
    .of_forall fun c hc => by simp [isWordChar, hruns r hr c hc]
  clear h hruns
  induction runs with
  | nil => exact .nil
  | cons r runs ih =>
      obtain ⟨hr, hruns⟩ := List.forall_mem_cons.mp hrun
      cases runs with
      | nil => simpa [List.intercalate] using hr
      | cons r' runs =>
          have hrest := ih hruns
          rw [List.intercalate_cons_cons]
          exact (hr.append (.colons .nil)).append hrest

theorem isHexDigit_of_isDigit {c : Char} (h : isDigit c = true) : isHexDigit c = true := by simp [isHexDigit, h]

theorem isWordChar_of_isHexDigit {c : Char} (h : isHexDigit c = true) : isWordChar c = true := by
  simp only [isHexDigit, isDigit, isWordChar, isBareChar, isAsciiAlphanumeric, Bool.or_eq_true, Bool.and_eq_true,
    decide_eq_true_eq, beq_iff_eq] at h ⊢
  rcases h with (h | h) | h
  · exact .inl (.inl (.inl (.inl (.inr h))))
  · exact .inl (.inl (.inl (.inl (.inl (.inl ⟨h.1, Char.le_trans h.2 (by decide)⟩)))))
  · exact .inl (.inl (.inl (.inl (.inl (.inr ⟨h.1, Char.le_trans h.2 (by decide)⟩)))))

theorem IsSign.isUnbroken {sign : Option Char} (h : IsSign sign) : IsUnbroken sign.toList := by
  rcases h with rfl | rfl | rfl
  · exact .nil
  · exact .char (by decide) .nil
  · exact .char (by decide) .nil

theorem isUnbroken_digits {sign : Option Char} {ds : List Char} (hsign : IsSign sign)
    (hds : ∀ c ∈ ds, isDigit c = true) : IsUnbroken (sign.toList ++ ds) :=
  hsign.isUnbroken.append (.of_forall fun c hc => isWordChar_of_isHexDigit (isHexDigit_of_isDigit (hds c hc)))

theorem WritesInteger.isUnbroken {w : List Char} {n : Int} (h : WritesInteger w n) : IsUnbroken w := by
  cases h with
  | decimal hsign _ hds _ => exact isUnbroken_digits hsign hds
  | hexadecimal hsign hx _ hds =>
      refine hsign.isUnbroken.append (.char (by decide) (.char ?_ ?_))
      · rcases hx with rfl | rfl
        · decide
        · decide
      · exact .of_forall fun c hc => isWordChar_of_isHexDigit (hds c hc)

theorem WritesInteger.ne_nil {w : List Char} {n : Int} (h : WritesInteger w n) : w ≠ [] := by
  cases h with
  | decimal _ hne => simp [hne]
  | hexadecimal => simp

/-! ### What a word denotes -/

theorem splitSign_append {sign : Option Char} {ds : List Char} (hsign : IsSign sign) (hne : ds ≠ [])
    (hds : ∀ c ∈ ds, isHexDigit c = true) : splitSign (sign.toList ++ ds) = (sign, ds) := by
  obtain ⟨d, ds, rfl⟩ := List.exists_cons_of_ne_nil hne
  have hd := hds d List.mem_cons_self
  rcases hsign with rfl | rfl | rfl
  · show splitSign (d :: ds) = _
    unfold splitSign
    split
    · rename_i h
      obtain ⟨rfl, -⟩ := List.cons.inj h
      exact absurd hd (by decide)
    · rename_i h
      obtain ⟨rfl, -⟩ := List.cons.inj h
      exact absurd hd (by decide)
    · rfl
  · rfl
  · rfl

theorem integer?_decimal {sign : Option Char} {ds : List Char} (hsign : IsSign sign) (hne : ds ≠ [])
    (hds : ∀ c ∈ ds, isDigit c = true) :
    integer? (sign.toList ++ ds) = some ((Text.decimal ds).map fun n => signed sign n) := by
  have hsplit := splitSign_append hsign hne fun c hc => isHexDigit_of_isDigit (hds c hc)
  have hdecimal : (!ds.isEmpty && ds.all isDigit) = true := by
    simp [hne, List.all_eq_true.mpr hds]
  unfold integer?
  rw [hsplit]
  dsimp only
  split
  · rename_i x es
    -- The second digit is no letter.
    have hx : isDigit x = true := hds x (by simp)
    have hletter : (x == 'x' || x == 'X') = false := by
      rw [Bool.or_eq_false_iff]
      constructor
      · refine beq_eq_false_iff_ne.mpr ?_
        rintro rfl
        exact absurd hx (by decide)
      · refine beq_eq_false_iff_ne.mpr ?_
        rintro rfl
        exact absurd hx (by decide)
    rw [hletter, Bool.false_and, Bool.false_and, if_neg Bool.false_ne_true, if_pos hdecimal]
  · rw [if_pos hdecimal]

theorem integer?_hexadecimal {sign : Option Char} {x : Char} {ds : List Char} (hsign : IsSign sign)
    (hx : x = 'x' ∨ x = 'X') (hne : ds ≠ []) (hds : ∀ c ∈ ds, isHexDigit c = true) :
    integer? (sign.toList ++ '0' :: x :: ds) = some (.ok (signed sign (numeral 16 ds))) := by
  have hsplit : splitSign (sign.toList ++ '0' :: x :: ds) = (sign, '0' :: x :: ds) := by
    rcases hsign with rfl | rfl | rfl
    · rfl
    · rfl
    · rfl
  have hletter : (x == 'x' || x == 'X') = true := by simpa using hx
  have hdigits : ((x == 'x' || x == 'X') && !ds.isEmpty && ds.all isHexDigit) = true := by
    simp [hletter, hne, List.all_eq_true.mpr hds]
  unfold integer?
  rw [hsplit]
  exact if_pos hdigits

theorem integer?_of_writesInteger {w : List Char} {n : Int} (h : WritesInteger w n) :
    integer? w = some (.ok n) := by
  cases h with
  | decimal hsign hne hds hlength =>
      rw [integer?_decimal hsign hne hds, decimal_of_length_le hlength]
      rfl
  | hexadecimal hsign hx hne hds => exact integer?_hexadecimal hsign hx hne hds

theorem splitSign_parts {w body : List Char} {sign : Option Char} (h : splitSign w = (sign, body)) :
    IsSign sign ∧ w = sign.toList ++ body := by
  unfold splitSign at h
  split at h
  · obtain ⟨rfl, rfl⟩ := Prod.mk.inj h
    exact ⟨.inr (.inl rfl), rfl⟩
  · obtain ⟨rfl, rfl⟩ := Prod.mk.inj h
    exact ⟨.inr (.inr rfl), rfl⟩
  · obtain ⟨rfl, rfl⟩ := Prod.mk.inj h
    exact ⟨.inl rfl, rfl⟩

/-! ### Nothing else is a number -/

/-- Nothing is read as an integer but integers that are written, and digits of which there are too many. -/
theorem isLiteralWord_of_integer? {w : List Char} {x : Except Overlong Int} (h : integer? w = some x) :
    IsLiteralWord w := by
  cases hsplit : splitSign w with
  | mk sign body =>
      obtain ⟨hsign, rfl⟩ := splitSign_parts hsplit
      have hdecimal : (if !body.isEmpty && body.all isDigit then
          some ((Text.decimal body).map fun n => signed sign n) else none) = some x →
            IsLiteralWord (sign.toList ++ body) := by
        intro h
        split at h
        · rename_i hds
          rw [Bool.and_eq_true, Bool.not_eq_true', List.isEmpty_eq_false_iff, List.all_eq_true] at hds
          rcases Nat.lt_or_ge maxDigits body.length with hlength | hlength
          · exact .overlong hsign hds.2 hlength
          · exact .integer (.decimal hsign hds.1 hds.2 hlength)
        · cases h
      unfold integer? at h
      rw [hsplit] at h
      dsimp only at h
      split at h
      · rename_i x ds
        split at h
        · rename_i hx
          rw [Bool.and_eq_true, Bool.and_eq_true, Bool.not_eq_true', List.isEmpty_eq_false_iff, List.all_eq_true,
            Bool.or_eq_true, beq_iff_eq, beq_iff_eq] at hx
          exact .integer (.hexadecimal hsign hx.1.1 hx.1.2 hx.2)
        · exact hdecimal h
      · exact hdecimal h

theorem writesExponent_of_exponent? {e : List Char} {n : Int} (h : exponent? e = some n) : WritesExponent e := by
  cases e with
  | nil => exact .none
  | cons c s =>
      cases hsplit : splitSign s with
      | mk sign ds =>
          obtain ⟨hsign, rfl⟩ := splitSign_parts hsplit
          unfold exponent? at h
          dsimp only at h
          rw [hsplit] at h
          dsimp only at h
          split at h
          · rename_i hc
            rw [Bool.and_eq_true, Bool.and_eq_true, Bool.not_eq_true', List.isEmpty_eq_false_iff, List.all_eq_true,
              Bool.or_eq_true, beq_iff_eq, beq_iff_eq] at hc
            exact .some hc.1.1 hsign hc.1.2 hc.2
          · cases h

theorem takeWhile_append_drop (s : List Char) :
    s = s.takeWhile isDigit ++ s.drop (s.takeWhile isDigit).length := by
  have hdrop := @List.drop_left _ (s.takeWhile isDigit) (s.dropWhile isDigit)
  rw [List.takeWhile_append_dropWhile] at hdrop
  rw [hdrop, List.takeWhile_append_dropWhile]

theorem writesFraction_of_fraction? {w : List Char} {x : Binary64} (h : fraction? w = some x) : WritesFraction w := by
  cases hsplit : splitSign w with
  | mk sign body =>
      obtain ⟨hsign, rfl⟩ := splitSign_parts hsplit
      unfold fraction? at h
      rw [hsplit] at h
      dsimp only at h
      split at h
      · rename_i s hbody
        split at h
        · cases h
        · rename_i hne
          obtain ⟨e, he, -⟩ := Option.map_eq_some_iff.mp h
          have hdigits : ∀ t : List Char, ∀ c ∈ t.takeWhile isDigit, isDigit c = true :=
            fun t => List.all_eq_true.mp List.all_takeWhile
          have hne : body.takeWhile isDigit ≠ [] ∨ s.takeWhile isDigit ≠ [] := by
            rw [Bool.and_eq_true, List.isEmpty_iff, List.isEmpty_iff] at hne
            exact Decidable.not_and_iff_not_or_not.mp hne
          have hwrites := WritesFraction.mk hsign (hdigits body) (hdigits s) hne (writesExponent_of_exponent? he)
          rwa [← takeWhile_append_drop s, ← hbody, ← takeWhile_append_drop body] at hwrites
      · cases h

/-! ### Conversion -/

theorem convertWord_of_integer? {w : List Char} {x : Except Overlong Int} (h : integer? w = some x) :
    convertWord w = x.map .int := by
  have hne : ∀ v, integer? v = none → w ≠ v := by
    rintro v hv rfl
    rw [hv] at h
    cases h
  unfold convertWord
  rw [if_neg (hne _ rfl), if_neg (hne _ rfl), if_neg (hne _ rfl), h]

theorem convertWord_of_writesInteger {w : List Char} {n : Int} (h : WritesInteger w n) :
    convertWord w = .ok (.int n) :=
  convertWord_of_integer? (integer?_of_writesInteger h)

/-- A word that writes nothing else denotes the string that it is. -/
theorem convertWord_of_not_isLiteralWord {w : List Char} (h : ¬IsLiteralWord w) :
    convertWord w = .ok (.str (String.ofList w)) := by
  have hinteger : integer? w = none :=
    Option.eq_none_iff_forall_ne_some.mpr fun n hn => h (isLiteralWord_of_integer? hn)
  have hfraction : fraction? w = none :=
    Option.eq_none_iff_forall_ne_some.mpr fun x hx => h (.fraction (writesFraction_of_fraction? hx))
  unfold convertWord
  split
  · rename_i htrue
    exact absurd (htrue ▸ .bool true) h
  · split
    · rename_i hfalse
      exact absurd (hfalse ▸ .bool false) h
    · split
      · rename_i hnull
        exact absurd (hnull ▸ .null) h
      · rw [hinteger, hfraction]

end HeaderReflection.Attribute
