import HeaderReflection.Attribute.Native
import HeaderReflection.Text.Numeral

/-! # Enum declarations

The head of an enum up to its opening brace, and the text of one enumerator:

    enum class [[nodiscard]] Color : uint8_t {
    Red [[deprecated]] = 0x10, // the first one

The value of an enumerator is a single integer literal.  A decimal one may have only so many digits;
hexadecimal and octal ones may be of any length. -/

namespace HeaderReflection

open Text

/-! ### Heads -/

/-- The head of an enum declaration. -/
structure EnumHead where
  native : Bag
  name : String
  /-- The underlying type, empty if it is not written. -/
  baseType : String
  /-- The opening brace stands on the same line. -/
  opened : Bool
  deriving DecidableEq, Repr

namespace EnumHead

/-- Reads a head. -/
def read : Lexer EnumHead := do
  Lexer.expect "enum".toList
  unless ← Lexer.swallowWord "class".toList do
    let _ ← Lexer.swallowWord "struct".toList
  let native ← Lexer.nativeAttributes
  let name ← Lexer.identifier
  let baseType ←
    if ← Lexer.swallow [':'] then pure (trim (← Lexer.upTo ['\x7b'])) else pure []
  let opened ← Lexer.swallow ['\x7b']
  return ⟨native, String.ofList name, String.ofList baseType, opened⟩

end EnumHead

/-! ### Integer literals -/

/-- The number that the digits of an integer literal denote: hexadecimal behind `0x`, octal behind
another zero, decimal otherwise. -/
def literalValue (digits : List Char) : Except Overlong Nat :=
  match digits with
  | '0' :: 'x' :: ds | '0' :: 'X' :: ds => .ok (numeral 16 ds)
  | '0' :: d :: ds => .ok (numeral 8 (d :: ds))
  | ds => decimal ds

/-- The digits of an integer literal at the beginning of a text, and the text behind it. -/
def literalDigits (s : List Char) : List Char × List Char :=
  match s with
  | '0' :: x :: rest =>
    if (x == 'x' || x == 'X') && (rest.head?.map isHexDigit).getD false then
      ('0' :: x :: rest.takeWhile isHexDigit, rest.dropWhile isHexDigit)
    else ('0' :: (x :: rest).takeWhile isOctalDigit, (x :: rest).dropWhile isOctalDigit)
  | s => (s.takeWhile isDigit, s.dropWhile isDigit)

/-- Characters that may not follow an integer literal. -/
def continuesLiteral (c : Char) : Bool := isIdentifierChar c || c == '.'

/-- The value of the integer literal at the beginning of a text, unless it has too many digits, and
the text behind it. -/
def integerLiteral? (s : List Char) : Option (Except Overlong Int × List Char) :=
  let (sign, body) := splitSign s
  let (digits, rest) := literalDigits body
  if digits.isEmpty || (rest.head?.map continuesLiteral).getD false then none
  else some ((literalValue digits).map fun n => signed sign n, rest)

/-! ### Enumerators -/

/-- The text of an enumerator, taken apart. -/
structure EnumeratorText where
  name : String
  native : Bag
  value : Option Int
  /-- The documentation comment behind it. -/
  comment : Option String
  deriving DecidableEq, Repr

namespace EnumeratorText

/-- Reads what follows the name and its attributes. -/
def readValue (name : String) : Lexer (Option Int) := do
  if ← Lexer.swallow ['='] then
    Lexer.trim
    match integerLiteral? (← get) with
    | some (.ok v, rest) =>
      set rest
      return some v
    | some (.error e, _) => throw (.overlong e)
    | none => throw (.enumeratorValue name)
  else return none

/-- Reads an enumerator. -/
def read : Lexer EnumeratorText := do
  let name := String.ofList (← Lexer.identifier)
  let native ← Lexer.nativeAttributes
  let value ← readValue name
  let _ ← Lexer.swallow [',']
  let comment ←
    match trim (← get) with
    | [] => pure none
    | '/' :: '/' :: '/' :: s => pure (some (String.ofList (trim s)))
    | '/' :: '/' :: _ => pure none
    | _ => throw (if value.isSome then .enumeratorValue name else .enumeratorTrailing)
  return ⟨name, native, value, comment⟩

end EnumeratorText

end HeaderReflection
