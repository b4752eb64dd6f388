import HeaderReflection.Derivation.Synthesis
import HeaderReflection.Settings.Basic

/-! # Flag accessors

A field can hold the flags of an enum, one bit for each enumerator.

* Every enumerator gets methods that test its bit and, if the flags of the field are written, that set, unset
  and toggle it.
* An enumerator with an opposite gets the same methods for the complement, under the name of the opposite.
  One without an opposite may get methods that test and set its complement (`FlagUse.nots`).
* An accessor is a role, a name and an operation on the bit (`FlagAccessor`); the statement that it performs
  is told by the operation (`BitOp.statement`).

The roles of accessors hold the name of the enum and of the enumerator (`FlagAccessor.roleFor`), so that a
field can have methods for all its flags. -/

namespace HeaderReflection

/-! ### Operations on bits -/

/-- What a flag accessor does to its bit. -/
inductive BitOp where
  | test
  | testNot
  | raise
  | lower
  | toggle
  deriving DecidableEq, Repr

namespace BitOp

/-- Whether the operation changes the field. -/
def isWrite : BitOp → Bool
  | .test | .testNot => false
  | .raise | .lower | .toggle => true

/-- The statement that performs the operation on a field. -/
def statement (field bit : String) : BitOp → String
  | .test => "return (this->" ++ field ++ " & " ++ bit ++ ") != 0;"
  | .testNot => "return (this->" ++ field ++ " & " ++ bit ++ ") == 0;"
  | .raise => "this->" ++ field ++ " |= " ++ bit ++ ";"
  | .lower => "this->" ++ field ++ " &= ~" ++ bit ++ ";"
  | .toggle => "this->" ++ field ++ " ^= " ++ bit ++ ";"

theorem isEmpty_statement (field bit : String) (op : BitOp) : (op.statement field bit).isEmpty = false := by
  cases op
  all_goals exact isEmpty_append (isEmpty_append (isEmpty_append (isEmpty_append rfl _) _) _) _

/-- What the operation does, for its documentation. -/
def comment (flag field : String) : BitOp → String
  | .test => "Checks whether the " ++ flag ++ " flag is set in " ++ field
  | .testNot => "Checks whether the " ++ flag ++ " flag is NOT set in " ++ field
  | .raise => "Sets the " ++ flag ++ " flag in " ++ field
  | .lower => "Clears the " ++ flag ++ " flag in " ++ field
  | .toggle => "Toggles the " ++ flag ++ " flag in " ++ field

/-- The type that the operation returns. -/
def returnType (op : BitOp) : String := if op.isWrite then "void" else "bool"

/-- The flags of a method that performs the operation. -/
def flags (op : BitOp) : FlagSet MethodFlag :=
  if op.isWrite then .ofList [.inlined, .forFlag]
  else .ofList [.const, .inlined, .noexcept, .noDiscard, .forFlag]

end BitOp

/-! ### Accessors -/

/-- A method that reads or writes the bit of an enumerator. -/
structure FlagAccessor where
  /-- What the method does for its field, apart from the enumerator. -/
  role : String
  name : String
  op : BitOp
  deriving DecidableEq, Repr

namespace FlagAccessor

/-- The accessor of the enumerator and that of its opposite.  An enumerator without an opposite has
the `fallback` in its place, if there is one. -/
def pair (direct : FlagAccessor) (opposite : String → FlagAccessor)
    (fallback : Option FlagAccessor) (x : Enumerator) : List FlagAccessor :=
  direct :: if x.opposite.isEmpty then fallback.toList else [opposite x.opposite]

/-- The accessors that read a bit. -/
def tests (n : NameParts) (nots : Bool) (x : Enumerator) : List FlagAccessor :=
  pair ⟨"FlagGetter", n.test ++ x.name, .test⟩
    (fun o => ⟨"FlagOppositeGetter", n.test ++ o, .testNot⟩)
    (if nots then some ⟨"FlagOppositeGetter", n.testNot ++ x.name, .testNot⟩ else none) x

/-- The accessors that set a bit. -/
def setters (n : NameParts) (nots : Bool) (x : Enumerator) : List FlagAccessor :=
  pair ⟨"FlagSetter", n.setter ++ x.name, .raise⟩
    (fun o => ⟨"FlagOppositeSetter", n.setter ++ o, .lower⟩)
    (if nots then some ⟨"FlagOppositeSetter", n.setNot ++ x.name, .lower⟩ else none) x

/-- The accessors that unset a bit. -/
def unsetters (n : NameParts) (x : Enumerator) : List FlagAccessor :=
  pair ⟨"FlagUnsetter", n.unset ++ x.name, .lower⟩
    (fun o => ⟨"FlagOppositeUnsetter", n.unset ++ o, .raise⟩) none x

/-- The accessors that toggle a bit. -/
def togglers (n : NameParts) (x : Enumerator) : List FlagAccessor :=
  pair ⟨"FlagToggler", n.toggle ++ x.name, .toggle⟩
    (fun o => ⟨"FlagOppositeToggler", n.toggle ++ o, .toggle⟩) none x

/-- The literal with the bit of a value, of the type of the field. -/
def bitLiteral (type : String) (value : Nat) : String :=
  type ++ "\x7b" ++ toString (Nat.pow 2 value) ++ "\x7d"

/-- The role of the accessor for an enumerator of an enum. -/
def roleFor (a : FlagAccessor) (e : Enumeration) (x : Enumerator) : String :=
  a.role ++ "." ++ e.fullName ++ "." ++ x.name

/-- The method that an accessor of a field is. -/
def draft (a : FlagAccessor) (f : Field) (x : Enumerator) (onChange : String) : MethodDraft where
  returnType := a.op.returnType
  name := a.name
  body :=
    let s := a.op.statement f.name (bitLiteral f.type x.value.toNat)
    if a.op.isWrite then withOnChange s onChange else s
  comment := a.op.comment x.name f.name
  flags := a.op.flags.insertIf (f.flags.has .noScript) .noScript

end FlagAccessor

/-- How a field holds the flags of an enum. -/
structure FlagUse where
  enumeration : Enumeration
  /-- There are methods that write the flags. -/
  writes : Bool
  /-- Flags without an opposite have methods for their complement too. -/
  nots : Bool
  deriving DecidableEq, Repr

end HeaderReflection
