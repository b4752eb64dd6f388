import HeaderReflection.Attribute.Catalog
import HeaderReflection.Attribute.Reader
import HeaderReflection.Lexer.Group
import HeaderReflection.Lexer.Iterate

/-! # Attributes in a declaration

Marker lists, `(…)` behind a marker, and native attributes, `[[…]]` groups in the declaration itself.

* A native spelling that stands for a known attribute is recorded under the name of that attribute
  (`Attribute.nativeNames`).
* Any other one is recorded under its own name, which may not be that of an attribute reserved for native
  spellings; such a spelling is noted, and refused once all groups are read (`NativeRead.forged`).
* The argument of a native attribute is a quoted string or a word, and an attribute without one is true.

The two kinds of lists are read by different lexers: a marker list is taken as a group first and then read as
a whole, while native attributes are read one after the other. -/

namespace HeaderReflection

/-! ### Native spellings -/

namespace Attribute

/-- The native spellings that stand for known attributes. -/
def nativeNames : List (String × Attribute) :=
  [("noreturn", noReturn), ("deprecated", deprecatedMark), ("nodiscard", noDiscard),
    ("no_unique_address", noUniqueAddress)]

/-- Whether a name belongs to an attribute that no attribute list may set. -/
def isReserved (name : String) : Bool :=
  match Catalog.standard.find? name with
  | some a => !a.userSettable
  | none => false

/-- The value of a native argument: a quoted string, or a word. -/
def nativeValue (argument : List Char) : Except Cause Value :=
  match argument with
  | [] => .ok (.bool true)
  | c :: s =>
    if isQuote c && s.getLast? == some c then
      match readString c s with
      | .ok (v, _) => .ok (.str (String.ofList v))
      | .error f => .error f.cause
    else (convertWord argument).mapError .overlong

/-- What has been read of native attributes. -/
structure NativeRead where
  bag : Bag := []
  /-- Reserved names used as native spellings. -/
  forged : List String := []
  deriving DecidableEq, Repr

end Attribute

namespace Lexer

open Attribute

/-! ### Lexers -/

/-- A native spelling: identifiers between double colons. -/
def nativeName : Lexer (List Char) := do
  let first ← identifier
  iterate (fun name => do
    if ← swallow "::".toList then
      return .yield (name ++ "::".toList ++ (← identifier))
    else return .done name) first

/-- One native attribute. -/
def nativeAttribute (r : NativeRead) : Lexer NativeRead := do
  let name := String.ofList (← nativeName)
  let mapped := nativeNames.lookup name
  let forged := if mapped.isNone && isReserved name then r.forged ++ [name] else r.forged
  let value ←
    if ← looking ['('] then
      match nativeValue (Text.trim (← balanced .round)) with
      | .ok v => pure v
      | .error e => throw e
    else pure (.bool true)
  return ⟨r.bag.put ((mapped.map Attribute.name).getD name) value, forged⟩

/-- The attributes of one group, whose opening brackets are read already. -/
def nativeGroup (r : NativeRead) : Lexer NativeRead :=
  iterate (fun r => do
    if ← swallow "]]".toList then return .done r
    let r ← nativeAttribute r
    if ← swallow [','] then return .yield r
    expect "]]".toList
    return .done r) r

/-- Takes any number of native groups. -/
def nativeAttributes : Lexer Bag := do
  let r ← iterate (fun r => do
    if ← swallow "[[".toList then return .yield (← nativeGroup r)
    else return .done r) {}
  if r.forged.isEmpty then return r.bag
  else throw (.unsettable r.forged)

/-- Takes the list of a marker. -/
def attributeList : Lexer Bag := do
  let inside ← balanced .round
  match readObject inside with
  | .error f => throw f.cause
  | .ok bag =>
    match Catalog.standard.rejectUnsettable bag with
    | .ok () => return bag
    | .error e => throw e

end Lexer

end HeaderReflection
