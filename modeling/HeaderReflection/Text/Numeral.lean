import HeaderReflection.Text.Blank

/-! # Numerals

Digits in a base up to sixteen, and what a run of them denotes.

Between numbers and decimal texts a conversion takes only so many digits (`maxDigits`), zeros in front
included and a sign not: a longer text is not read as a number (`decimal`), and a longer number is not
written as a text (`isWritable`).  What is too long is told by `Overlong`.  Bases that are powers of two
have no such limit. -/

namespace HeaderReflection.Text

/-! ### Digits -/

/-- Decimal digits. -/
def isDigit (c : Char) : Bool := '0' ≤ c && c ≤ '9'

/-- Octal digits. -/
def isOctalDigit (c : Char) : Bool := '0' ≤ c && c ≤ '7'

/-- Hexadecimal digits in either case. -/
def isHexDigit (c : Char) : Bool :=
  isDigit c || ('a' ≤ c && c ≤ 'f') || ('A' ≤ c && c ≤ 'F')

/-- The value of a digit, hexadecimal ones included. -/
def digitValue (c : Char) : Nat :=
  if c ≤ '9' then c.toNat - '0'.toNat
  else if c ≤ 'F' then c.toNat - 'A'.toNat + 10
  else c.toNat - 'a'.toNat + 10

/-- The number that a run of digits denotes in a base. -/
def numeral (base : Nat) (ds : List Char) : Nat :=
  ds.foldl (fun n c => base * n + digitValue c) 0

/-! ### Numbers that are too long -/

/-- The most digits that a conversion between numbers and decimal texts takes. -/
def maxDigits : Nat := 4300

/-- What a conversion between numbers and decimal texts refuses. -/
inductive Overlong where
  /-- A text with so many digits. -/
  | text (digits : Nat)
  /-- A number that would have too many. -/
  | number
  deriving DecidableEq, Repr

/-- The wording of a refusal. -/
def Overlong.message (e : Overlong) : String :=
  "Exceeds the limit (" ++ toString maxDigits ++ " digits) for integer string conversion" ++
    (match e with
    | .text n => ": value has " ++ toString n ++ " digits"
    | .number => "") ++
    "; use sys.set_int_max_str_digits() to increase the limit"

/-- The number that a run of decimal digits denotes. -/
def decimal (ds : List Char) : Except Overlong Nat :=
  if maxDigits < ds.length then .error (.text ds.length) else .ok (numeral 10 ds)

theorem decimal_of_length_le {ds : List Char} (h : ds.length ≤ maxDigits) : decimal ds = .ok (numeral 10 ds) :=
  if_neg (Nat.not_lt.mpr h)

theorem decimal_of_lt_length {ds : List Char} (h : maxDigits < ds.length) : decimal ds = .error (.text ds.length) :=
  if_pos h

/-- Whether a number can be written in decimal digits. -/
def isWritable (n : Int) : Bool := n.natAbs < Nat.pow 10 maxDigits

/-! ### Signs -/

/-- A sign in front of a text, and the text behind it. -/
def splitSign : List Char → Option Char × List Char
  | '+' :: s => (some '+', s)
  | '-' :: s => (some '-', s)
  | s => (none, s)

/-- A number with the sign `-` or another one. -/
def signed (sign : Option Char) (n : Nat) : Int := if sign = some '-' then -(n : Int) else n

/-- A last digit is worth itself, and all before it are moved up one place. -/
theorem numeral_concat (base : Nat) (ds : List Char) (c : Char) :
    numeral base (ds ++ [c]) = base * numeral base ds + digitValue c := by
  simp [numeral, List.foldl_append]

end HeaderReflection.Text
