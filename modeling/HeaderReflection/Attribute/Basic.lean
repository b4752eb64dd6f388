import HeaderReflection.Fault
import HeaderReflection.Text.Identifier
import HeaderReflection.Value

/-! # Attributes

An attribute is known by one or more names, belongs to some kinds of declarations, and accepts some values.
The first of its names is the canonical one.  Which of the names counts, if several are present in a bag, is
decided by their order (`Attribute.nameIn?`).

What is wrong with a value on a declaration is told by `Attribute.fault?`: first whether declarations of the
kind may have the attribute, then whether the value is one that it accepts (`Check.fault?`).

Whether a name is that of a reflected enum depends on the program.  It is a parameter of the check, so that
the same attributes can be checked before and after all headers are read. -/

namespace HeaderReflection

/-! ### Checks -/

/-- What an attribute demands of its value. -/
inductive Check where
  | string
  | bool
  | boolOrString
  | object
  | nonEmpty
  | identifier
  | namespaceName
  | reflectedEnum
  deriving DecidableEq, Repr

namespace Check

/-- The parts of a text between double colons. -/
def scopeParts : List Char → List (List Char)
  | [] => [[]]
  | ':' :: ':' :: s => [] :: scopeParts s
  | c :: s =>
    match scopeParts s with
    | p :: ps => (c :: p) :: ps
    | [] => [[c]]

/-- What is wrong with a string that must not be empty. -/
def textFault? (isEnum : String → Bool) (check : Check) (s : String) : Option ValueFault :=
  if s.isEmpty then some .empty
  else
    match check with
    | .identifier => if Text.isIdentifier s.toList then none else some (.notIdentifier s)
    | .namespaceName =>
      ((scopeParts s.toList).find? (!Text.isIdentifier ·)).map fun p =>
        .notNamespace (String.ofList p)
    | .reflectedEnum => if isEnum s then none else some (.notReflectedEnum s)
    | _ => none

/-- What is wrong with a value. -/
def fault? (isEnum : String → Bool) (check : Check) (v : Value) : Option ValueFault :=
  match check, v with
  | .string, .str _ => none
  | .string, _ => some .notString
  | .bool, .bool _ => none
  | .bool, _ => some .notBool
  | .boolOrString, .bool _ | .boolOrString, .str _ => none
  | .boolOrString, _ => some .notStringOrBool
  | .object, .object _ => none
  | .object, _ => some .notObject
  | c, .str s => textFault? isEnum c s
  | _, _ => some .notString

end Check

/-! ### Attributes -/

/-- An attribute that a declaration may have. -/
structure Attribute where
  /-- The accepted names, the canonical one first. -/
  names : List String
  description : String
  targets : List DeclarationKind
  check : Check
  default : Value := .null
  category : String := "Miscellaneous"
  /-- Whether headers may set it in an attribute list. -/
  userSettable : Bool := true
  deriving DecidableEq, Repr

namespace Attribute

/-- The canonical name. -/
def name (a : Attribute) : String := a.names.headD ""

/-- Whether declarations of a kind may have it. -/
def appliesTo (a : Attribute) (k : DeclarationKind) : Bool := a.targets.contains k

/-- The first accepted name that is present in a bag. -/
def nameIn? (a : Attribute) (bag : Bag) : Option String := a.names.find? (bag.contains ·)

/-- What is wrong with a value on a declaration of a kind. -/
def fault? (isEnum : String → Bool) (a : Attribute) (k : DeclarationKind) (v : Value) :
    Option ValueFault :=
  if a.appliesTo k then a.check.fault? isEnum v
  else some (.misplaced a.name (DeclarationKind.all.filter a.appliesTo))

end Attribute

end HeaderReflection
