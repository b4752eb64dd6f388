import HeaderReflection.Text.Numeral
import HeaderReflection.Value

/-! # Words as values

A word without quotes is one of the three literals, an integer in decimal or hexadecimal, a decimal
fraction, or the string that it is.  A decimal integer with too many digits has no value; hexadecimal
ones and fractions may be of any length. -/

namespace HeaderReflection.Attribute

open Text

/-- The integer that a word denotes, unless it has too many digits. -/
def integer? (word : List Char) : Option (Except Overlong Int) :=
  let (sign, body) := splitSign word
  let plain :=
    if !body.isEmpty && body.all isDigit then some ((decimal body).map fun n => signed sign n) else none
  match body with
  | '0' :: x :: ds =>
    if (x == 'x' || x == 'X') && !ds.isEmpty && ds.all isHexDigit then
      some (.ok (signed sign (numeral 16 ds)))
    else plain
  | _ => plain

/-- The exponent at the end of a fraction; a text that is not one has none. -/
def exponent? : List Char → Option Int
  | [] => some 0
  | c :: s =>
    let (sign, ds) := splitSign s
    if (c == 'e' || c == 'E') && !ds.isEmpty && ds.all isDigit then
      some (signed sign (numeral 10 ds))
    else none

/-- The number that a fraction denotes: digits around a point, and perhaps an exponent. -/
def fraction? (word : List Char) : Option Binary64 :=
  let (sign, body) := splitSign word
  let whole := body.takeWhile isDigit
  match body.drop whole.length with
  | '.' :: s =>
    let part := s.takeWhile isDigit
    if whole.isEmpty && part.isEmpty then none
    else
      (exponent? (s.drop part.length)).map fun e =>
        .ofDecimal (sign == some '-') (numeral 10 (whole ++ part)) (e - part.length)
  | _ => none

/-- The value of a word. -/
def convertWord (word : List Char) : Except Overlong Value :=
  if word = "true".toList then .ok (.bool true)
  else if word = "false".toList then .ok (.bool false)
  else if word = "null".toList then .ok .null
  else
    match integer? word, fraction? word with
    | some n, _ => n.map .int
    | none, some x => .ok (.float x)
    | none, none => .ok (.str (String.ofList word))

end HeaderReflection.Attribute
