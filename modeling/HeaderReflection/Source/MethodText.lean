import HeaderReflection.Attribute.Native
import HeaderReflection.Declaration.Flag
import HeaderReflection.Declaration.Parameter
import HeaderReflection.Lexer.TypeText

/-! # Method declarations

The text of a method declaration up to what ends it:

    [[nodiscard]] virtual auto Name(int a, T b = 1) const noexcept -> Type override = 0;

A return type behind an arrow counts if the one in front is `auto`. -/

namespace HeaderReflection

open Text

/-- The text of a method declaration, taken apart. -/
structure MethodText where
  native : Bag := []
  flags : FlagSet MethodFlag := {}
  returnType : String := ""
  name : String := ""
  rawParameters : String := ""
  parameters : List Parameter := []
  deriving DecidableEq, Repr

namespace MethodText

/-- Words that may stand before the return type, and the flags that they raise. -/
def leadingWords : List (List Char × MethodFlag) :=
  [("virtual".toList, .virtual), ("static".toList, .static), ("inline".toList, .inlined),
    ("explicit".toList, .explicit), ("constexpr".toList, .inlined)]

/-- Words that may stand behind the parameters, and the flags that they raise. -/
def trailingWords : List (List Char × List MethodFlag) :=
  [("const".toList, [.const]), ("final".toList, [.final]), ("noexcept".toList, [.noexcept]),
    ("override".toList, [])]

/-- Reads the native attributes and words before the return type. -/
def readLeading : Lexer MethodText := do
  let native ← Lexer.nativeAttributes
  Lexer.iterate (fun (m : MethodText) => do
    match ← Lexer.swallowOneOf leadingWords with
    | some f => return .yield { m with flags := m.flags.insert f }
    | none =>
      if ← Lexer.looking "[[".toList then
        return .yield { m with native := m.native.merge (← Lexer.nativeAttributes) }
      else return .done m) { native := native }

/-- Reads the words and reference qualifiers behind the parameters. -/
def readTrailing (flags : FlagSet MethodFlag) : Lexer (FlagSet MethodFlag) :=
  Lexer.iterate (fun (flags : FlagSet MethodFlag) => do
    match ← Lexer.swallowOneOf trailingWords with
    | some fs =>
      if fs.contains .noexcept then
        if ← Lexer.looking ['('] then
          let _ ← Lexer.balanced .round
      return .yield (fs.foldl (fun s f => s.insert f) flags)
    | none =>
      if ← Lexer.swallow "&&".toList then return .yield flags
      if ← Lexer.swallow ['&'] then return .yield flags
      return .done flags) flags

/-- A text without `word` at its end, if a blank stands before that. -/
def dropLastWord? (word s : List Char) : Option (List Char) :=
  if (' ' :: word).isSuffixOf s then some (trimRight (s.take (s.length - word.length))) else none

/-- The return type behind an arrow, and whether `final` follows it. -/
def trailingType (s : List Char) : List Char × Bool :=
  let s := trim s
  let s := (dropLastWord? "override".toList s).getD s
  match dropLastWord? "final".toList s with
  | some s => (s, true)
  | none => (s, false)

/-- Reads a return type behind an arrow, if there is one; it counts if the one in front is `auto`. -/
def readArrow (flags : FlagSet MethodFlag) (returnType : List Char) :
    Lexer (FlagSet MethodFlag × List Char) := do
  if ← Lexer.swallow "->".toList then
    let trailing := trailingType (← Lexer.upTo "\x7b;=".toList)
    let flags ← readTrailing (flags.insertIf trailing.2 .final)
    return (flags, if returnType = "auto".toList then trailing.1 else returnType)
  return (flags, returnType)

/-- Reads what is assigned to a method, if anything is; one that is assigned zero is abstract. -/
def readAssigned (flags : FlagSet MethodFlag) : Lexer (FlagSet MethodFlag) := do
  if ← Lexer.swallow ['='] then
    let isAbstract ← Lexer.swallowWord ['0']
    readTrailing (flags.insertIf isAbstract .abstract)
  else return flags

/-- Reads a method declaration. -/
def read : Lexer MethodText := do
  let m ← readLeading
  if ← Lexer.looking ['~'] then throw .destructor
  let returnType ← Lexer.typeText
  if returnType = "operator".toList then throw .operatorOverload
  let name ← Lexer.identifier
  if name = "operator".toList then throw .operatorOverload
  let native := m.native.merge (← Lexer.nativeAttributes)
  unless ← Lexer.looking ['('] do
    throw (.methodWithoutParameters (String.ofList name))
  let parameters := trim (← Lexer.balanced .round)
  let flags ← readTrailing m.flags
  let (flags, type) ← readArrow flags returnType
  let flags ← readAssigned flags
  return {
    native, flags, returnType := String.ofList type, name := String.ofList name,
    rawParameters := String.ofList parameters, parameters := Parameter.ofList parameters }

end MethodText

end HeaderReflection
