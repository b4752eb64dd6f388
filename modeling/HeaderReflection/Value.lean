import HeaderReflection.Binary64
import HeaderReflection.Keyed

/-! # Values

The dynamic values of attribute lists, of configurations and of the written database: scalars, arrays, and
objects whose members keep the order in which they came.

An object is a list of members and not a keyed list, so it can hold values of its own kind; its members are
looked up as those of a keyed list.  Equality is decided by going over values, items and members at once
(`Value.decEq`). -/

namespace HeaderReflection

/-! ### Values and their equality -/

/-- A dynamic value. -/
inductive Value where
  | null
  | bool (b : Bool)
  | int (n : Int)
  | float (x : Binary64)
  | str (s : String)
  | array (items : List Value)
  | object (members : List (String × Value))
  deriving Repr, Inhabited

/-- The attributes of a declaration, by name. -/
abbrev Bag := Keyed Value

namespace Value

mutual

/-- Equality of values is decidable. -/
def decEq : (a b : Value) → Decidable (a = b)
  | .null, b => match b with
    | .null => isTrue rfl
    | .bool _ | .int _ | .float _ | .str _ | .array _ | .object _ => isFalse nofun
  | .bool x, b => match b with
    | .bool y => decidable_of_iff (x = y) (by simp)
    | .null | .int _ | .float _ | .str _ | .array _ | .object _ => isFalse nofun
  | .int x, b => match b with
    | .int y => decidable_of_iff (x = y) (by simp)
    | .null | .bool _ | .float _ | .str _ | .array _ | .object _ => isFalse nofun
  | .float x, b => match b with
    | .float y => decidable_of_iff (x = y) (by simp)
    | .null | .bool _ | .int _ | .str _ | .array _ | .object _ => isFalse nofun
  | .str x, b => match b with
    | .str y => decidable_of_iff (x = y) (by simp)
    | .null | .bool _ | .int _ | .float _ | .array _ | .object _ => isFalse nofun
  | .array x, b => match b with
    | .array y =>
      have := decEqItems x y
      decidable_of_iff (x = y) (by simp)
    | .null | .bool _ | .int _ | .float _ | .str _ | .object _ => isFalse nofun
  | .object x, b => match b with
    | .object y =>
      have := decEqMembers x y
      decidable_of_iff (x = y) (by simp)
    | .null | .bool _ | .int _ | .float _ | .str _ | .array _ => isFalse nofun

/-- Equality of lists of values is decidable. -/
def decEqItems : (a b : List Value) → Decidable (a = b)
  | [], [] => isTrue rfl
  | [], _ :: _ => isFalse nofun
  | _ :: _, [] => isFalse nofun
  | x :: a, y :: b =>
    have := decEq x y
    have := decEqItems a b
    decidable_of_iff (x = y ∧ a = b) (by simp)

/-- Equality of lists of members is decidable. -/
def decEqMembers : (a b : List (String × Value)) → Decidable (a = b)
  | [], [] => isTrue rfl
  | [], _ :: _ => isFalse nofun
  | _ :: _, [] => isFalse nofun
  | (j, x) :: a, (k, y) :: b =>
    have := decEq x y
    have := decEqMembers a b
    decidable_of_iff (j = k ∧ x = y ∧ a = b) (by simp [and_assoc])

end

instance : DecidableEq Value := decEq

/-! ### Values by type -/

/-- The text of a string value. -/
def string? : Value → Option String
  | .str s => some s
  | _ => none

/-- The truth of a boolean value. -/
def bool? : Value → Option Bool
  | .bool b => some b
  | _ => none

/-- The members of an object value. -/
def object? : Value → Option Bag
  | .object m => some m
  | _ => none

/-- An array of strings. -/
def strings (l : List String) : Value := .array (l.map .str)

end Value

end HeaderReflection
