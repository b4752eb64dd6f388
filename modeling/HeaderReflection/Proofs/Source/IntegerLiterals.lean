import Mathlib.Data.Nat.Digits.Defs
import HeaderReflection.Source.EnumText

/-! # Integer literals as they are written

An integer literal is a sign, the mark of its base, and digits of that base.  What is read as a literal in front of
a text is exactly what is written as one, unless the text goes on with what continues a number
(`integerLiteral?_eq_some_iff`).

A literal that is found need not have a value: a decimal one with too many digits is refused (`IntegerLiteral.read`).
All others have the value that is written (`IntegerLiteral.read_of_isReadable`), which is told here by the places of
the digits and not by the way in which they are read.

## Main definitions

* `LiteralBase`: decimal, octal or hexadecimal, with the mark in front of the digits
* `IntegerLiteral`: a literal as it is written, with its text and its value
* `IntegerLiteral.IsReadable`: not a decimal literal with more digits than a conversion takes -/

namespace HeaderReflection

open Text

/-! ### Literals that are written -/

/-- The bases of integer literals. -/
inductive LiteralBase where
  | decimal
  | octal
  /-- With the letter behind the zero. -/
  | hexadecimal (letter : Char)
  deriving DecidableEq, Repr

namespace LiteralBase

/-- What stands in front of the digits. -/
def mark : LiteralBase → List Char
  | .decimal => []
  | .octal => ['0']
  | .hexadecimal letter => ['0', letter]

def radix : LiteralBase → Nat
  | .decimal => 10
  | .octal => 8
  | .hexadecimal _ => 16

/-- The digits of a number.  A zero begins no decimal number; alone it is an octal one without further digits. -/
def HasDigits : LiteralBase → List Char → Prop
  | .decimal, ds => (∀ c ∈ ds, isDigit c = true) ∧ ds.head? ≠ none ∧ ds.head? ≠ some '0'
  | .octal, ds => ∀ c ∈ ds, isOctalDigit c = true
  | .hexadecimal letter, ds => letter ∈ ['x', 'X'] ∧ ds ≠ [] ∧ ∀ c ∈ ds, isHexDigit c = true

/-- A number of the base may have so many digits. -/
def Allows (base : LiteralBase) (digits : Nat) : Prop := base = .decimal → digits ≤ maxDigits

instance (base : LiteralBase) (digits : Nat) : Decidable (base.Allows digits) :=
  inferInstanceAs (Decidable (_ → _))

end LiteralBase

/-- An integer literal. -/
structure IntegerLiteral where
  sign : Option Char := none
  base : LiteralBase
  digits : List Char
  deriving DecidableEq, Repr

namespace IntegerLiteral

structure IsValid (l : IntegerLiteral) : Prop where
  sign : l.sign ∈ [none, some '+', some '-']
  digits : l.base.HasDigits l.digits

/-- The literal behind its sign. -/
def unsigned (l : IntegerLiteral) : List Char := l.base.mark ++ l.digits

def text (l : IntegerLiteral) : List Char := l.sign.toList ++ l.unsigned

/-- A decimal literal has no more digits than a conversion takes. -/
def IsReadable (l : IntegerLiteral) : Prop := l.base.Allows l.digits.length

instance (l : IntegerLiteral) : Decidable l.IsReadable := inferInstanceAs (Decidable (LiteralBase.Allows _ _))

/-- The number that the digits denote by their places. -/
def magnitude (l : IntegerLiteral) : Nat := Nat.ofDigits l.base.radix (l.digits.reverse.map digitValue)

def value (l : IntegerLiteral) : Int := if l.sign = some '-' then -(l.magnitude : Int) else l.magnitude

/-- What reading a literal comes to. -/
def read (l : IntegerLiteral) : Except Overlong Int :=
  if l.IsReadable then .ok l.value else .error (.text l.digits.length)

theorem read_of_isReadable {l : IntegerLiteral} (h : l.IsReadable) : l.read = .ok l.value := if_pos h

end IntegerLiteral

/-- The text does not go on with what would continue a number. -/
def EndsLiteral (t : List Char) : Prop := (t.head?.map continuesLiteral).getD false = false

/-! ### Digits -/

theorem numeral_eq_ofDigits (base : Nat) (ds : List Char) :
    numeral base ds = Nat.ofDigits base (ds.reverse.map digitValue) := by
  have hreverse : ∀ es : List Char, numeral base es.reverse = Nat.ofDigits base (es.map digitValue) := by
    intro es
    induction es with
    | nil => rfl
    | cons c es ih =>
        rw [List.reverse_cons, numeral_concat, List.map_cons, Nat.ofDigits_cons, ih, Nat.add_comm]
  have hlast := hreverse ds.reverse
  rwa [List.reverse_reverse] at hlast

theorem continuesLiteral_of_isHexDigit {c : Char} (hc : isHexDigit c = true) : continuesLiteral c = true := by
  simp only [isHexDigit, isDigit, Bool.or_eq_true, Bool.and_eq_true, decide_eq_true_eq] at hc
  simp only [continuesLiteral, isIdentifierChar, isAsciiAlphanumeric, Bool.or_eq_true, Bool.and_eq_true,
    decide_eq_true_eq]
  rcases hc with (hdigit | ⟨ha, hf⟩) | ⟨ha, hf⟩
  · exact .inl (.inl (.inr hdigit))
  · have hz : 'f' ≤ 'z' := by decide
    exact .inl (.inl (.inl (.inl ⟨ha, Char.le_trans hf hz⟩)))
  · have hz : 'F' ≤ 'Z' := by decide
    exact .inl (.inl (.inl (.inr ⟨ha, Char.le_trans hf hz⟩)))

theorem isHexDigit_of_isDigit {c : Char} (hc : isDigit c = true) : isHexDigit c = true := by
  simp [isHexDigit, hc]

theorem isDigit_of_isOctalDigit {c : Char} (hc : isOctalDigit c = true) : isDigit c = true := by
  simp only [isOctalDigit, isDigit, Bool.and_eq_true, decide_eq_true_eq] at hc ⊢
  have hnine : '7' ≤ '9' := by decide
  exact ⟨hc.1, Char.le_trans hc.2 hnine⟩

theorem takeWhile_append_digits {p : Char → Bool} (hp : ∀ c, p c = true → isHexDigit c = true) {ds t : List Char}
    (hds : ∀ c ∈ ds, p c = true) (ht : EndsLiteral t) :
    (ds ++ t).takeWhile p = ds ∧ (ds ++ t).dropWhile p = t := by
  have hends : t.takeWhile p = [] ∧ t.dropWhile p = t := by
    cases t with
    | nil => exact ⟨rfl, rfl⟩
    | cons c t =>
        have hc : ¬p c = true := fun hpc => by
          have hcontinues : continuesLiteral c = false := ht
          rw [continuesLiteral_of_isHexDigit (hp c hpc)] at hcontinues
          cases hcontinues
        exact ⟨List.takeWhile_cons_of_neg hc, List.dropWhile_cons_of_neg hc⟩
  rw [List.takeWhile_append_of_pos hds, List.dropWhile_append_of_pos hds, hends.1, hends.2, List.append_nil]
  exact ⟨rfl, rfl⟩

theorem literalDigits_zero (x : Char) (rest : List Char) :
    literalDigits ('0' :: x :: rest) =
      if (x == 'x' || x == 'X') && (rest.head?.map isHexDigit).getD false then
        ('0' :: x :: rest.takeWhile isHexDigit, rest.dropWhile isHexDigit)
      else ('0' :: (x :: rest).takeWhile isOctalDigit, (x :: rest).dropWhile isOctalDigit) := rfl

/-- Digits that no zero begins are decimal. -/
theorem literalValue_of_ne_zero {c : Char} (hc : c ≠ '0') (ds : List Char) :
    literalValue (c :: ds) = Text.decimal (c :: ds) := by
  unfold literalValue
  split
  · rename_i heq
    exact absurd (List.cons.inj heq).1 hc
  · rename_i heq
    exact absurd (List.cons.inj heq).1 hc
  · rename_i heq
    exact absurd (List.cons.inj heq).1 hc
  · rfl

/-- Behind a zero, a digit begins an octal number. -/
theorem literalValue_of_isOctalDigit {c : Char} (hc : isOctalDigit c = true) (ds : List Char) :
    literalValue ('0' :: c :: ds) = .ok (numeral 8 (c :: ds)) := by
  unfold literalValue
  split
  · rename_i heq
    obtain ⟨rfl, -⟩ := List.cons.inj (List.cons.inj heq).2
    cases hc
  · rename_i heq
    obtain ⟨rfl, -⟩ := List.cons.inj (List.cons.inj heq).2
    cases hc
  · rename_i heq
    rw [← (List.cons.inj heq).2]
  · rename_i hnot
    exact absurd rfl (hnot c ds)

namespace LiteralBase

variable {base : LiteralBase} {ds s t : List Char}

/-- The digits of a number are taken with the mark of the base. -/
theorem HasDigits.literalDigits (h : base.HasDigits ds) (ht : EndsLiteral t) :
    literalDigits (base.mark ++ ds ++ t) = (base.mark ++ ds, t) := by
  cases base with
  | decimal =>
      obtain ⟨hds, hsome, hzero⟩ := h
      obtain ⟨htake, hdrop⟩ := takeWhile_append_digits (fun _ => isHexDigit_of_isDigit) hds ht
      cases ds with
      | nil => exact absurd rfl hsome
      | cons c ds =>
          have hc : c ≠ '0' := fun h => hzero (congrArg some h)
          show HeaderReflection.literalDigits (c :: (ds ++ t)) = (c :: ds, t)
          unfold HeaderReflection.literalDigits
          split
          · rename_i heq
            exact absurd (List.cons.inj heq).1 hc
          · exact Prod.ext htake hdrop
  | octal =>
      have hdigits : ∀ c, isOctalDigit c = true → isHexDigit c = true := fun _ hc =>
        isHexDigit_of_isDigit (isDigit_of_isOctalDigit hc)
      obtain ⟨htake, hdrop⟩ := takeWhile_append_digits hdigits h ht
      show HeaderReflection.literalDigits ('0' :: (ds ++ t)) = ('0' :: ds, t)
      cases hrest : ds ++ t with
      | nil =>
          obtain ⟨rfl, rfl⟩ := List.append_eq_nil_iff.mp hrest
          rfl
      | cons x rest =>
          -- Neither an octal digit nor the character behind them is the letter of another base.
          have hx : (x == 'x' || x == 'X') = false := by
            refine Bool.eq_false_iff.mpr fun hx => ?_
            have hletter : isOctalDigit x = false ∧ continuesLiteral x = true := by
              rcases Bool.or_eq_true_iff.mp hx with hx | hx
              · obtain rfl := eq_of_beq hx
                decide
              · obtain rfl := eq_of_beq hx
                decide
            cases ds with
            | nil =>
                obtain rfl : t = x :: rest := hrest
                exact Bool.noConfusion (hletter.2.symm.trans ht)
            | cons c ds =>
                obtain rfl : c = x := (List.cons.inj hrest).1
                exact Bool.noConfusion ((h c List.mem_cons_self).symm.trans hletter.1)
          rw [literalDigits_zero, hx, Bool.false_and, if_neg Bool.false_ne_true, ← hrest, htake, hdrop]
  | hexadecimal letter =>
      obtain ⟨hletter, hne, hds⟩ := h
      obtain ⟨htake, hdrop⟩ := takeWhile_append_digits (fun _ => id) hds ht
      obtain ⟨c, ds, rfl⟩ := List.exists_cons_of_ne_nil hne
      have hx : (letter == 'x' || letter == 'X') = true := by simpa using hletter
      have hc : isHexDigit c = true := hds c List.mem_cons_self
      have hhead : ((c :: ds ++ t).head?.map isHexDigit).getD false = true := hc
      show HeaderReflection.literalDigits ('0' :: letter :: (c :: ds ++ t)) = ('0' :: letter :: (c :: ds), t)
      rw [literalDigits_zero, hx, hhead, if_pos (Bool.and_self true), htake, hdrop]

/-- What is taken as digits are the mark of a base and digits of it. -/
theorem exists_hasDigits (h : literalDigits s = (ds, t)) (hne : ds ≠ []) :
    s = ds ++ t ∧ ∃ base digits, ds = LiteralBase.mark base ++ digits ∧ base.HasDigits digits := by
  have hsplit : ∀ (p : Char → Bool) (u : List Char), u = u.takeWhile p ++ u.dropWhile p := fun p u =>
    List.takeWhile_append_dropWhile.symm
  have hall : ∀ (p : Char → Bool) (u : List Char), ∀ c ∈ u.takeWhile p, p c = true := fun p u =>
    List.all_eq_true.mp List.all_takeWhile
  unfold HeaderReflection.literalDigits at h
  split at h
  · rename_i x rest
    split at h
    · rename_i hx
      obtain ⟨rfl, rfl⟩ := Prod.mk.inj h
      obtain ⟨hletter, hhead⟩ := Bool.and_eq_true_iff.mp hx
      refine ⟨congrArg ('0' :: x :: ·) (hsplit isHexDigit rest), .hexadecimal x, _, rfl, ?_, ?_, hall isHexDigit rest⟩
      · simpa using hletter
      · cases rest with
        | nil => exact absurd hhead Bool.false_ne_true
        | cons c rest =>
            have hc : isHexDigit c = true := hhead
            rw [List.takeWhile_cons_of_pos hc]
            exact List.cons_ne_nil _ _
    · obtain ⟨rfl, rfl⟩ := Prod.mk.inj h
      exact ⟨congrArg ('0' :: ·) (hsplit isOctalDigit (x :: rest)), .octal, _, rfl, hall isOctalDigit (x :: rest)⟩
  · rename_i hother
    obtain ⟨rfl, rfl⟩ := Prod.mk.inj h
    refine ⟨hsplit isDigit s, ?_⟩
    cases s with
    | nil => exact absurd rfl hne
    | cons c s =>
        by_cases hc : c = '0'
        · -- A zero in front of anything else has been treated as a mark.
          subst hc
          cases s with
          | nil => exact ⟨.octal, [], rfl, List.forall_mem_nil _⟩
          | cons d s => exact absurd rfl (hother d s)
        · have hdigit : isDigit c = true := by
            by_contra hnot
            exact hne (List.takeWhile_cons_of_neg hnot)
          have htake : (c :: s).takeWhile isDigit = c :: s.takeWhile isDigit := List.takeWhile_cons_of_pos hdigit
          have hhead : ((c :: s).takeWhile isDigit).head? = some c := congrArg List.head? htake
          refine ⟨.decimal, (c :: s).takeWhile isDigit, rfl, hall isDigit (c :: s), ?_, ?_⟩
          · rw [hhead]
            exact nofun
          · rw [hhead]
            exact fun h => hc (Option.some.inj h)

/-- The digits denote the same number by the rule for their mark, unless there are too many of them. -/
theorem HasDigits.literalValue (h : base.HasDigits ds) :
    literalValue (base.mark ++ ds) =
      if base.Allows ds.length then .ok (numeral base.radix ds) else .error (.text ds.length) := by
  cases base with
  | decimal =>
      obtain ⟨-, hsome, hzero⟩ := h
      cases ds with
      | nil => exact absurd rfl hsome
      | cons c ds =>
          have hc : c ≠ '0' := fun h => hzero (congrArg some h)
          show HeaderReflection.literalValue (c :: ds) = _
          rw [literalValue_of_ne_zero hc]
          by_cases hlength : (c :: ds).length ≤ maxDigits
          · have hallows : LiteralBase.decimal.Allows (c :: ds).length := fun _ => hlength
            rw [decimal_of_length_le hlength, if_pos hallows]
            rfl
          · have hallows : ¬LiteralBase.decimal.Allows (c :: ds).length := fun h => hlength (h rfl)
            rw [decimal_of_lt_length (Nat.not_le.mp hlength), if_neg hallows]
  | octal =>
      cases ds with
      | nil => rfl
      | cons c ds =>
          have hc : isOctalDigit c = true := h c List.mem_cons_self
          have hallows : LiteralBase.octal.Allows (c :: ds).length := nofun
          rw [if_pos hallows]
          exact literalValue_of_isOctalDigit hc ds
  | hexadecimal letter =>
      obtain ⟨hletter, -, -⟩ := h
      have hallows : (LiteralBase.hexadecimal letter).Allows ds.length := nofun
      rw [if_pos hallows]
      rcases List.mem_cons.mp hletter with rfl | hletter
      · rfl
      · obtain rfl := List.mem_singleton.mp hletter
        rfl

theorem HasDigits.exists_cons (h : base.HasDigits ds) : ∃ c u, base.mark ++ ds = c :: u ∧ isDigit c = true := by
  cases base with
  | decimal =>
      obtain ⟨hds, hsome, -⟩ := h
      cases ds with
      | nil => exact absurd rfl hsome
      | cons c ds => exact ⟨c, ds, rfl, hds c List.mem_cons_self⟩
  | octal => exact ⟨'0', ds, rfl, rfl⟩
  | hexadecimal letter => exact ⟨'0', letter :: ds, rfl, rfl⟩

end LiteralBase

/-! ### Literals -/

theorem splitSign_append {sign : Option Char} (hsign : sign ∈ [none, some '+', some '-']) {c : Char}
    (hc : isDigit c = true) (u : List Char) : splitSign (sign.toList ++ c :: u) = (sign, c :: u) := by
  have hother : c ≠ '+' ∧ c ≠ '-' := by
    constructor
    · rintro rfl
      cases hc
    · rintro rfl
      cases hc
  rcases List.mem_cons.mp hsign with rfl | hsign
  · show splitSign (c :: u) = (none, c :: u)
    unfold splitSign
    split
    · rename_i heq
      exact absurd (List.cons.inj heq).1 hother.1
    · rename_i heq
      exact absurd (List.cons.inj heq).1 hother.2
    · rfl
  · rcases List.mem_cons.mp hsign with rfl | hsign
    · rfl
    · obtain rfl := List.mem_singleton.mp hsign
      rfl

theorem eq_append_of_splitSign {s body : List Char} {sign : Option Char} (h : splitSign s = (sign, body)) :
    s = sign.toList ++ body ∧ sign ∈ [none, some '+', some '-'] := by
  unfold splitSign at h
  split at h
  all_goals
    obtain ⟨rfl, rfl⟩ := Prod.mk.inj h
    exact ⟨rfl, by decide⟩

/-- A literal is read by its digits. -/
theorem IntegerLiteral.IsValid.map_literalValue {l : IntegerLiteral} (hl : l.IsValid) :
    ((literalValue l.unsigned).map fun n => signed l.sign n) = l.read := by
  have hdigits : literalValue l.unsigned = _ := hl.digits.literalValue
  rw [hdigits]
  unfold read
  by_cases h : l.base.Allows l.digits.length
  · rw [if_pos h, if_pos (show l.IsReadable from h), numeral_eq_ofDigits]
    rfl
  · rw [if_neg h, if_neg (show ¬l.IsReadable from h)]
    rfl

/-- What is read as an integer literal is what is written as one, and it has the value that is written, unless it has
too many digits. -/
theorem integerLiteral?_eq_some_iff {s t : List Char} {x : Except Overlong Int} :
    integerLiteral? s = some (x, t) ↔
      ∃ l : IntegerLiteral, l.IsValid ∧ s = l.text ++ t ∧ x = l.read ∧ EndsLiteral t := by
  constructor
  · intro h
    unfold integerLiteral? at h
    cases hsign : splitSign s with
    | mk sign body =>
        rw [hsign] at h
        cases hdigits : literalDigits body with
        | mk ds rest =>
            dsimp only at h
            rw [hdigits] at h
            dsimp only at h
            split at h
            · cases h
            · rename_i hends
              obtain ⟨hempty, ht⟩ := Bool.or_eq_false_iff.mp (Bool.eq_false_iff.mpr hends)
              obtain ⟨rfl, rfl⟩ := Prod.mk.inj (Option.some.inj h)
              have hne : ds ≠ [] := fun hnil => by
                rw [hnil] at hempty
                cases hempty
              obtain ⟨rfl, hsigns⟩ := eq_append_of_splitSign hsign
              obtain ⟨rfl, base, digits, rfl, hbase⟩ := LiteralBase.exists_hasDigits hdigits hne
              have hvalid : IntegerLiteral.IsValid ⟨sign, base, digits⟩ := ⟨hsigns, hbase⟩
              exact ⟨_, hvalid, (List.append_assoc _ _ _).symm, hvalid.map_literalValue, ht⟩
  · rintro ⟨l, hl, rfl, rfl, ht⟩
    obtain ⟨c, u, hunsigned, hc⟩ := hl.digits.exists_cons
    have hsign : splitSign (l.text ++ t) = (l.sign, l.unsigned ++ t) := by
      unfold IntegerLiteral.text IntegerLiteral.unsigned
      rw [hunsigned, List.append_assoc]
      exact splitSign_append hl.sign hc (u ++ t)
    have hdigits : literalDigits (l.unsigned ++ t) = (l.unsigned, t) := hl.digits.literalDigits ht
    have hne : l.unsigned.isEmpty = false := by
      unfold IntegerLiteral.unsigned
      rw [hunsigned]
      rfl
    unfold integerLiteral?
    rw [hsign]
    dsimp only
    rw [hdigits]
    dsimp only
    rw [hne, Bool.false_or, if_neg (by rw [ht]; exact Bool.false_ne_true), hl.map_literalValue]

end HeaderReflection
