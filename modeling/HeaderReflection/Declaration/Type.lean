import HeaderReflection.Declaration.Member

/-! # Types

Classes and enums, and the headers that declare them.

* A type has a simple name and a namespace.  Other headers write the name with the namespace in front
  (`TypeDeclaration.fullType`); the database joins the parts with separators (`TypeDeclaration.fullName`).
* A class holds its members, and besides them the properties by name, the methods by name, and the flags that
  its fields declare.
* The values of an enum are consecutive if they increase by one, and then its flags leave no gaps. -/

namespace HeaderReflection

/-! ### Names of types -/

/-- What classes and enums have in common. -/
structure TypeDeclaration extends Declaration where
  /-- The enclosing namespace, its parts between double colons. -/
  scope : String := ""
  guid : Option String := none
  /-- The header that declares the type. -/
  path : SourcePath := {}
  deriving DecidableEq, Repr

namespace TypeDeclaration

/-- The name as other headers write it. -/
def fullType (t : TypeDeclaration) : String :=
  if t.scope.isEmpty then t.name else t.scope ++ "::" ++ t.name

/-- The name with its namespace, in parts. -/
def nameParts (t : TypeDeclaration) : List String :=
  if t.scope.isEmpty then [t.name]
  else (Check.scopeParts t.scope.toList).map String.ofList ++ [t.name]

/-- The full name, its parts between separators. -/
def fullName (t : TypeDeclaration) (separator : String := ".") : String :=
  String.intercalate separator t.nameParts

/-- Whether a name, qualified or not, is that of the type. -/
def isNamed (t : TypeDeclaration) (name : String) : Bool := t.name == name || t.fullType == name

end TypeDeclaration

/-! ### Classes -/

/-- A flag that a field declares for its class. -/
structure DeclaredFlag where
  name : String
  /-- The name of the field. -/
  field : String
  /-- The full name of the enumerator. -/
  enumerator : String
  /-- The methods that read or write the flag. -/
  methods : List MethodLink := []
  deriving DecidableEq, Repr

/-- A class or struct. -/
structure Class extends TypeDeclaration where
  /-- The first base class as it is written, empty if there is none. -/
  baseClass : String := ""
  fields : List Field := []
  /-- The declared methods and behind them the synthesized ones. -/
  methods : List Method := []
  properties : Keyed Property := []
  flags : FlagSet ClassFlag := {}
  defaultFieldAttributes : Bag := []
  defaultMethodAttributes : Bag := []
  /-- The line of the body marker; zero before it is read. -/
  bodyLine : Nat := 0
  /-- What has to be added to the body of the class. -/
  bodyAdditions : List String := []
  declaredFlags : List DeclaredFlag := []
  /-- The positions of the methods with a name or script name. -/
  methodsByName : Keyed (List Nat) := []
  deriving DecidableEq, Repr

namespace Class

/-- The full name of a member. -/
def memberName (c : Class) (name : String) (separator : String := ".") : String :=
  c.fullName separator ++ separator ++ name

/-- The full name of a method. -/
def methodName (c : Class) (m : Method) (separator : String := ".") : String :=
  m.link.fullName (c.fullName separator) separator

/-- The methods that no header declares. -/
def artificialMethods (c : Class) : List Method := c.methods.filter (·.flags.has .artificial)

/-- A property of the given name without a type, owned by the class. -/
def newProperty (c : Class) (name : String) : Property :=
  { name := name, displayName := name, uid := Uid.compute c.path c.line ["property", name] }

/-- The property of the given name, or a new one. -/
def property (c : Class) (name : String) : Property :=
  (c.properties.get? name).getD (c.newProperty name)

/-- The class with its property of the given name changed, which is added first if need be. -/
def updateProperty (c : Class) (name : String) (f : Property → Property) : Class :=
  { c with properties := c.properties.put name (f (c.property name)) }

end Class

/-! ### Enums -/

/-- An enum. -/
structure Enumeration extends TypeDeclaration where
  baseType : String := ""
  enumerators : List Enumerator := []
  defaultEnumeratorAttributes : Bag := []
  flags : FlagSet EnumFlag := {}
  deriving DecidableEq, Repr

namespace Enumeration

/-- Each value of a list is one more than the value before it. -/
def areConsecutive : List Int → Bool
  | a :: b :: vs => b == a + 1 && areConsecutive (b :: vs)
  | _ => true

/-- The values of the enumerators. -/
def values (e : Enumeration) : List Int := e.enumerators.map (·.value)

/-- The values increase by one. -/
def isConsecutive (e : Enumeration) : Bool := areConsecutive e.values

/-- The values are the positions of the enumerators, of which there is one. -/
def isTrivial (e : Enumeration) : Bool := e.values.head? == some 0 && e.isConsecutive

end Enumeration

/-! ### Headers -/

/-- The declarations of one header. -/
structure Header where
  path : SourcePath
  classes : List Class := []
  enums : List Enumeration := []
  deriving DecidableEq, Repr

/-- A header without declarations. -/
def Header.isEmpty (h : Header) : Bool := h.classes.isEmpty && h.enums.isEmpty

end HeaderReflection
