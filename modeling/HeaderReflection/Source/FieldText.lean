import HeaderReflection.Attribute.Native
import HeaderReflection.Declaration.Flag
import HeaderReflection.Lexer.Expression
import HeaderReflection.Text.Outside

/-! # Field declarations

The text of a field declaration, of one of the forms

    Type name;
    Type name = expression;
    Type name{expression};

with native attributes in front and then `static`, `mutable` and `inline` in any order. -/

namespace HeaderReflection

open Text

/-- The text of a field declaration, taken apart. -/
structure FieldText where
  native : Bag
  flags : FlagSet FieldFlag
  type : String
  name : String
  initializer : String
  deriving DecidableEq, Repr

namespace FieldText

/-- Words that may stand before the type, and the flags that they raise. -/
def leadingWords : List (List Char × List FieldFlag) :=
  [("mutable".toList, [.mutable]), ("static".toList, [.static]), ("inline".toList, [])]

/-- Reads the words before the type. -/
def readFlags : Lexer (FlagSet FieldFlag) :=
  Lexer.iterate (fun flags => do
    match ← Lexer.swallowOneOf leadingWords with
    | some fs => return .yield (fs.foldl (fun s f => s.insert f) flags)
    | none => return .done flags) {}

/-- Where the declarator ends: the text before it, the character that ends it, and the text behind
that.  Curly brackets end a declarator, and a closing bracket too many is ignored. -/
def cutDeclarator? (depth : Nat) : List Char → Option (List Char × Char × List Char)
  | [] => none
  | c :: s =>
    let onward (depth : Nat) := (cutDeclarator? depth s).map fun p => (c :: p.1, p.2)
    if typeBrackets.openers.contains c then onward (depth + 1)
    else if typeBrackets.closers.contains c then onward (depth - 1)
    else if depth = 0 ∧ (c = '=' ∨ c = '\x7b' ∨ c = ';') then some ([], c, s)
    else onward depth

/-- Reads an initializer up to the semicolon. -/
def readInitializer : Lexer (List Char) := do
  let e ← Lexer.expression
  if e.isEmpty then Lexer.missing "initializer"
  Lexer.expect [';']
  return e

/-- The declarator of a text, its initializer, and whether that is written in braces. -/
def split (s : List Char) : Except Cause (List Char × List Char × Bool) :=
  match cutDeclarator? 0 s with
  | none => .error (.expected ";" "")
  | some (declarator, ';', _) => .ok (declarator, [], false)
  | some (declarator, '=', rest) => do
    return (declarator, ← readInitializer.eval rest, false)
  | some (declarator, c, rest) => do
    return (declarator, ← readInitializer.eval (c :: rest), true)

/-- The type and the name that a declarator declares. -/
def typeAndName (declarator : List Char) : Except Cause (String × String) :=
  match splitTrailingIdentifier declarator with
  | (_, []) => .error (.expected "field name" (String.ofList declarator))
  | ([], name) => .error (.fieldWithoutType (String.ofList name))
  | (type, name) => .ok (String.ofList type, String.ofList name)

/-- The field that a text declares behind its attributes and leading words. -/
def ofDeclaration (native : Bag) (flags : FlagSet FieldFlag) (s : List Char) :
    Except Cause FieldText := do
  let (declarator, initializer, braced) ← split s
  let (type, name) ← typeAndName declarator
  return ⟨native, flags.insertIf braced .braceInitialized, type, name, String.ofList initializer⟩

/-- Reads a field declaration. -/
def read : Lexer FieldText := do
  let native ← Lexer.nativeAttributes
  let flags ← readFlags
  match ofDeclaration native flags (← Lexer.rest) with
  | .ok t => return t
  | .error e => throw e

end FieldText

/-- A name without the `m` that marks members, if a capital follows it. -/
def displayNameForField (name : String) : String :=
  match name.toList with
  | 'm' :: c :: s => if 'A' ≤ c && c ≤ 'Z' then String.ofList (c :: s) else name
  | _ => name

end HeaderReflection
