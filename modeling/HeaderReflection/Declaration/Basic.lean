import HeaderReflection.Attribute.Bearer
import HeaderReflection.Declaration.Flag
import HeaderReflection.Declaration.Parameter
import HeaderReflection.Uid

/-! # Declarations

What all declarations have in common, and the links between them.

* A declaration states its name, its place, its attributes and its comments.  What is derived for it later is
  a part of it as well: notes for its documentation, flags, and the methods that were made from it.
* A class owns its members and is owned by its file.  A member points to others by position in its class
  (`Origin`).
* A synthesized method is pointed to by what identifies it: the declaration it was made from and its role
  there (`Synthesis`).  Together with its name and its identifier this makes up a link (`MethodLink`), which
  stays valid when methods are added to the class. -/

namespace HeaderReflection

/-- A note for the documentation of a declaration. -/
structure DocNote where
  header : String
  contents : String
  showInMemberList : Bool := false
  icon : String := ""
  deriving DecidableEq, Repr

/-- A note that warns. -/
def DocNote.warning (header contents : String) : DocNote := ⟨header, contents, true, "warning"⟩

/-! ### Links -/

/-- The declaration of a class that a method is made from. -/
inductive Origin where
  | owner
  | field (index : Nat)
  | method (index : Nat)
  deriving DecidableEq, Repr

/-- How a synthesized method came about. -/
structure Synthesis where
  origin : Origin
  /-- What the method does for its origin; an origin has one method for each role. -/
  role : String
  /-- The line of the origin. -/
  line : Nat
  deriving DecidableEq, Repr

/-- A method as others refer to it. -/
structure MethodLink where
  name : String
  uid : Uid
  line : Nat
  returnType : String
  parameters : List Parameter
  synthesis : Option Synthesis
  deriving DecidableEq, Repr

namespace MethodLink

/-- The name of a method that no overload shares. -/
def uniqueName (name : String) (uid : Uid) : String := name ++ "_" ++ Uid.hex uid

/-- The full name of the method in a class with the given full name. -/
def fullName (owner separator : String) (m : MethodLink) : String :=
  owner ++ separator ++ uniqueName m.name m.uid

end MethodLink

/-! ### Declarations -/

/-- What all declarations have in common. -/
structure Declaration where
  name : String := ""
  displayName : String := ""
  comments : List String := []
  docNotes : List DocNote := []
  attributes : Bag := []
  /-- The line of the marker; zero for what no header declares. -/
  line : Nat := 0
  access : Access := .unspecified
  uid : Uid := 0
  entityFlags : FlagSet EntityFlag := {}
  deprecation : Option String := none
  forceDocument : Option Bool := none
  documentMembers : Bool := true
  /-- The methods made from this declaration, by role. -/
  synthesized : Keyed MethodLink := []
  deriving DecidableEq, Repr

namespace Declaration

/-- The declaration as a bearer of attributes. -/
def bearer (d : Declaration) (kind : DeclarationKind) (path : SourcePath)
    (isEnum : String → Bool) : Bearer :=
  ⟨kind, d.attributes, some path, d.line, isEnum⟩

/-- Adds a note. -/
def note (d : Declaration) (n : DocNote) : Declaration := { d with docNotes := d.docNotes ++ [n] }

end Declaration

end HeaderReflection
