import HeaderReflection.Value
import HeaderReflection.Binary64.Shortest
import HeaderReflection.Text.Numeral

/-! # The written form of values

Values are written as JSON in ASCII, two blanks deeper for each open bracket, members in their order and empty
containers on one line.  Other characters are escaped by their 16-bit units, of which a character may need
two.

Numbers are written in decimal digits, binary ones with the fewest that tell them apart.  A number that is too
long for a conversion cannot be written, and then neither can the value that it is in (`Value.toJson`). -/

namespace HeaderReflection.Value

/-! ### Scalars -/

/-- Positional from `1e-4` to below `1e16`, otherwise with an exponent of two digits or more. -/
def numberLayout : NumberLayout := ⟨-4, 16, 2, "Infinity"⟩

/-- The four hexadecimal digits of a 16-bit unit. -/
def hexUnit (n : Nat) : List Char :=
  [12, 8, 4, 0].map fun k => Nat.digitChar (n >>> k % 16)

/-- The escape of a character by its 16-bit units. -/
def escapeUnits (n : Nat) : List Char :=
  if n < 0x10000 then '\\' :: 'u' :: hexUnit n
  else
    let m := n - 0x10000
    '\\' :: 'u' :: hexUnit (0xD800 + m / 0x400) ++ '\\' :: 'u' :: hexUnit (0xDC00 + m % 0x400)

/-- A character inside a quoted string. -/
def escape (c : Char) : List Char :=
  match c with
  | '"' => ['\\', '"']
  | '\\' => ['\\', '\\']
  | '\n' => ['\\', 'n']
  | '\t' => ['\\', 't']
  | '\r' => ['\\', 'r']
  | '\x08' => ['\\', 'b']
  | '\x0c' => ['\\', 'f']
  | c => if ' ' ≤ c && c ≤ '~' then [c] else escapeUnits c.toNat

/-- A quoted string. -/
def quote (s : String) : String := "\"" ++ String.ofList (s.toList.flatMap escape) ++ "\""

/-! ### Containers -/

/-- A line end and the indentation of depth `d`. -/
def newline (d : Nat) : String := String.ofList ('\n' :: List.replicate (2 * d) ' ')

/-- Written parts between brackets, one a line at depth `d + 1`. -/
def bracketed (opening closing : String) (d : Nat) (parts : List String) : String :=
  if parts.isEmpty then opening ++ closing
  else
    opening ++ newline (d + 1) ++ String.intercalate ("," ++ newline (d + 1)) parts ++
      newline d ++ closing

mutual

/-- The written form of a value at depth `d`. -/
def render (d : Nat) : Value → String
  | .null => "null"
  | .bool b => if b then "true" else "false"
  | .int n => toString n
  | .float x => numberLayout.render x
  | .str s => quote s
  | .array items => bracketed "[" "]" d (renderItems (d + 1) items)
  | .object members => bracketed "\x7b" "\x7d" d (renderMembers (d + 1) members)

/-- The written forms of the items of an array. -/
def renderItems (d : Nat) : List Value → List String
  | [] => []
  | v :: vs => render d v :: renderItems d vs

/-- The written forms of the members of an object. -/
def renderMembers (d : Nat) : List (String × Value) → List String
  | [] => []
  | (k, v) :: ms => (quote k ++ ": " ++ render d v) :: renderMembers d ms

end

mutual

/-- Whether every number in a value can be written. -/
def isWritable : Value → Bool
  | .int n => Text.isWritable n
  | .array items => itemsWritable items
  | .object members => membersWritable members
  | _ => true

/-- Whether every number in the items of an array can be written. -/
def itemsWritable : List Value → Bool
  | [] => true
  | v :: vs => isWritable v && itemsWritable vs

/-- Whether every number in the members of an object can be written. -/
def membersWritable : List (String × Value) → Bool
  | [] => true
  | (_, v) :: ms => isWritable v && membersWritable ms

end

/-! ### Whole values -/

/-- The written form of a value, unless a number in it is too long. -/
def toJson (v : Value) : Except Text.Overlong String :=
  if v.isWritable then .ok (v.render 0) else .error .number

end HeaderReflection.Value
