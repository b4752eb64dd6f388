/-! # The console

What a command shows is a sequence of lines and tables.  A console takes them with markup for styles:
a tag in square brackets opens a style, and a tag with a slash in front of the name closes it again.
A line or table that is marked up wrongly is refused, and nothing behind it is shown.

The console is a library, and a parameter here.  What the program relies on is what its documentation
says of markup (`Console.IsLawful`); what tags there are besides, and what a console makes of them, is
left open. -/

namespace HeaderReflection

/-- A titled table. -/
structure Table where
  title : String
  heading : List String
  rows : List (List String)
  deriving DecidableEq, Repr

/-- What a command shows. -/
inductive Printed where
  | line (text : String)
  | table (t : Table)
  deriving DecidableEq, Repr

/-- A console, by what it takes. -/
structure Console where
  takes : String → Bool
  takesTable : Table → Bool

namespace Console

/-- A text that has no tags, and no backslash at its end that would take the meaning of a tag away. -/
def IsPlain (s : String) : Prop := '[' ∉ s.toList ∧ s.toList.getLast? ≠ some '\\'

/-- The name of a style. -/
def IsStyle (s : String) : Prop := s ≠ "" ∧ ∀ c ∈ s.toList, 'a' ≤ c ∧ c ≤ 'z'

/-- What is documented of markup. -/
structure IsLawful (k : Console) : Prop where
  /-- A text without opening brackets has no tags. -/
  plain : ∀ s : String, '[' ∉ s.toList → k.takes s = true
  /-- A plain text leaves all styles as they are. -/
  append : ∀ s t : String, IsPlain s → k.takes (s ++ t) = k.takes t
  /-- A style that is opened and closed again is as if it had not been. -/
  styled : ∀ w s t : String, IsStyle w → IsPlain s →
    k.takes ("[" ++ w ++ "]" ++ s ++ "[/" ++ w ++ "]" ++ t) = k.takes t
  /-- A style that is not open cannot be closed. -/
  stray : ∀ w t : String, IsStyle w → k.takes ("[/" ++ w ++ "]" ++ t) = false
  /-- Markup is for the title, the heading and every cell of a table. -/
  table : ∀ t : Table, k.takesTable t = true ↔
    k.takes t.title = true ∧ (∀ s ∈ t.heading, k.takes s = true) ∧ ∀ r ∈ t.rows, ∀ s ∈ r, k.takes s = true

variable (k : Console)

/-- Whether a console takes what is shown. -/
def takesPrinted : Printed → Bool
  | .line s => k.takes s
  | .table t => k.takesTable t

/-- What a console shows, up to the first part that it refuses. -/
def shown (ps : List Printed) : List Printed := ps.takeWhile k.takesPrinted

/-- Whether a console refuses nothing. -/
def accepts (ps : List Printed) : Bool := ps.all k.takesPrinted

end Console

end HeaderReflection
