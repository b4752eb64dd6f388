import HeaderReflection.Lexer.Basic
import HeaderReflection.Settings.Basic

/-! # Markers

A marker is a name followed by a parenthesis at the beginning of a line.  A reader of headers fixes
the names that it answers to when it is made; of two kinds under one name the later one wins. -/

namespace HeaderReflection

/-- The kinds of markers by name. -/
abbrev MarkerTable := Keyed MarkerKind

namespace MarkerTable

/-- The markers that a line can begin with outside enums. -/
def ofSettings (s : Settings) : MarkerTable :=
  Keyed.ofList ([.classType, .field, .method, .body, .enumType].map fun k => (s.markerName k, k))

/-- The text behind the name of a marker at the beginning of a line, from the parenthesis on. -/
def behind? (name : String) (line : List Char) : Option (List Char) :=
  match (Lexer.dropLiteral? name.toList line).map Text.trimLeft with
  | some ('(' :: s) => some ('(' :: s)
  | _ => none

/-- The first listed marker that a line begins with, and the text behind its name. -/
def find? (table : MarkerTable) (line : List Char) : Option (String × MarkerKind × List Char) :=
  table.findSome? fun m => (behind? m.1 line).map fun s => (m.1, m.2, s)

end MarkerTable

end HeaderReflection
