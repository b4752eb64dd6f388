import HeaderReflection.Attribute.Native
import HeaderReflection.Lexer.TypeText
import HeaderReflection.Text.Outside

/-! # Class heads

The text of a class declaration up to its opening brace:

    class [[nodiscard]] Unit final : public virtual Base<int>, Other { -/

namespace HeaderReflection

open Text

/-- The head of a class declaration. -/
structure ClassHead where
  isStruct : Bool
  native : Bag
  name : String
  /-- The first base class, empty if there is none. -/
  baseClass : String
  deriving DecidableEq, Repr

namespace ClassHead

/-- Words that may stand before a base class. -/
def baseWords : List (List Char) :=
  ["public", "protected", "private", "virtual"].map String.toList

/-- The base class in one piece of the list of bases. -/
def baseOf (piece : List Char) : Except Cause String :=
  let invalid := Cause.baseInvalid (String.ofList (trim piece))
  match Lexer.typeText.answer (Lexer.skipWords baseWords piece) with
  | (.error e, _) => .error (.baseBrackets e)
  | (.ok base, rest) =>
    if base.isEmpty || !isBlankText rest then .error invalid else .ok (String.ofList base)

/-- The pieces of a list of bases. -/
def basePieces (s : List Char) : List (List Char) :=
  (splitOutside typeBrackets 0 s).filter (!isBlankText ·)

/-- The first of a list of bases, all of which are checked. -/
def firstBase (s : List Char) : Except Cause String := do
  match ← (basePieces s).mapM baseOf with
  | base :: _ => return base
  | [] => throw .baseMissing

/-- Reads a head. -/
def read : Lexer ClassHead := do
  let isStruct ← Lexer.swallowWord "struct".toList
  unless isStruct do
    unless ← Lexer.swallowWord "class".toList do
      Lexer.missing "class` or `struct"
  let native ← Lexer.nativeAttributes
  let name ← Lexer.identifier
  let _ ← Lexer.swallowWord "final".toList
  let baseClass ←
    if ← Lexer.swallow [':'] then
      match firstBase (← Lexer.upTo ['\x7b']) with
      | .ok b => pure b
      | .error e => throw e
    else pure ""
  let _ ← Lexer.swallow ['\x7b']
  return ⟨isStruct, native, String.ofList name, baseClass⟩

end ClassHead

end HeaderReflection
