import HeaderReflection.Text.Alphanumeric
import HeaderReflection.Text.Outside

/-! # Parameters

A parameter list is cut at its outer commas.  What follows the first outer `=` of a piece is the
default argument; before it stands the type, and the word at its end is the name.  A single word is a
type without a name. -/

namespace HeaderReflection

open Text

/-- A parameter of a method. -/
structure Parameter where
  name : String
  type : String
  /-- The default argument, empty if there is none. -/
  initializer : String := ""
  deriving DecidableEq, Repr

namespace Parameter

/-- The text before the first outer `=`, and the text behind it. -/
def splitInitializer (piece : List Char) : List Char × List Char :=
  match cutOutside? allBrackets (· == '=') 0 piece with
  | some (before, _, behind) => (before, behind)
  | none => (piece, [])

/-- Characters of a parameter's name. -/
def isNameChar (c : Char) : Bool := isAlphanumeric c || c == '_'

/-- The parameter that one piece of a list declares. -/
def ofPiece (piece : List Char) : Parameter :=
  let (declarator, initializer) := splitInitializer piece
  let r := (trim declarator).reverse
  let name := String.ofList (r.takeWhile isNameChar).reverse
  let type := String.ofList (trim (r.dropWhile isNameChar).reverse)
  let initializer := String.ofList (trim initializer)
  if type.isEmpty then ⟨"", name, initializer⟩ else ⟨name, type, initializer⟩

/-- The parameters of a list; a list that is empty or `void` has none. -/
def ofList (s : List Char) : List Parameter :=
  let s := trim s
  if s.isEmpty || s == "void".toList then []
  else (splitOutside allBrackets 0 s).map ofPiece

end Parameter

end HeaderReflection
