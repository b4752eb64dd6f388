import HeaderReflection.Declaration.Basic

/-! # Members

Fields, methods and properties of a class, and enumerators of an enum.

* A field can be written out as the declaration that would stand in a header (`Field.render`).
* A method is declared in a header or made in a derivation.  One that was made has no line of its own, and
  messages about it name the line of what it was made from (`Method.actualLine`).
* A property is what scripts and editors see as one member.  It stands for a field, or for methods that claim
  it, or for both.
* The value of an enumerator is the number that is written, or the one behind the value before it. -/

namespace HeaderReflection

/-! ### Fields -/

/-- A field. -/
structure Field extends Declaration where
  type : String := ""
  /-- The initializer, with its braces if it is written in braces; empty if there is none. -/
  initializer : String := ""
  flags : FlagSet FieldFlag := {}
  /-- The name without a member prefix. -/
  cleanName : String := ""
  loadName : String := ""
  saveName : String := ""
  deriving DecidableEq, Repr

namespace Field

/-- The declaration as it would stand in a header. -/
def render (f : Field) : String :=
  (if f.flags.has .static then "static " else "") ++
    (if f.flags.has .mutable then "mutable " else "") ++
    f.type ++ " " ++ f.name ++
    (if f.initializer.isEmpty then ""
      else if f.flags.has .braceInitialized then f.initializer
      else " = " ++ f.initializer) ++
    ";"

end Field

/-! ### Methods -/

/-- A method, declared or synthesized. -/
structure Method extends Declaration where
  returnType : String := ""
  /-- The text between the parentheses. -/
  rawParameters : String := ""
  parameters : List Parameter := []
  flags : FlagSet MethodFlag := {}
  /-- A name that tells the method from its overloads. -/
  scriptedName : Option String := none
  /-- How the method came about, unless a header declares it. -/
  synthesis : Option Synthesis := none
  /-- The body of a synthesized method. -/
  body : String := ""
  deriving DecidableEq, Repr

namespace Method

/-- The name by which calls find the method. -/
def dispatchName (m : Method) : String :=
  match m.scriptedName with
  | some n => if n.isEmpty then m.name else n
  | none => m.name

/-- Some parameter has a default argument. -/
def hasDefaults (m : Method) : Bool := m.parameters.any (!·.initializer.isEmpty)

/-- The line of the method, or of what it was made from. -/
def actualLine (m : Method) : Nat :=
  if m.line = 0 then (m.synthesis.map (·.line)).getD 0 else m.line

/-- The method as others refer to it. -/
def link (m : Method) : MethodLink :=
  ⟨m.name, m.uid, m.line, m.returnType, m.parameters, m.synthesis⟩

/-- The type of a pointer to the method in a class of the given type. -/
def signature (classType : String) (m : Method) : String :=
  let types := String.intercalate "," (m.parameters.map (·.type))
  let pointer := if m.flags.has .static then "(*)" else "(" ++ classType ++ "::*)"
  m.returnType ++ " " ++ pointer ++ "(" ++ types ++ ")" ++
    (if m.flags.has .const then " const" else "") ++
    (if m.flags.has .noexcept then " noexcept" else "")

end Method

/-! ### Properties and enumerators -/

/-- A property: what scripts and editors see as one member. -/
structure Property extends Declaration where
  type : String := ""
  getter : Option MethodLink := none
  setter : Option MethodLink := none
  /-- The position of the field that it stands for. -/
  source : Option Nat := none
  flags : FlagSet PropertyFlag := {}
  deriving DecidableEq, Repr

/-- An enumerator. -/
structure Enumerator extends Declaration where
  value : Int := 0
  /-- The name of the complement of a flag, empty if it has none. -/
  opposite : String := ""
  deriving DecidableEq, Repr

end HeaderReflection
