import HeaderReflection.Declaration.Type

/-! # Programs

The headers that have been read, in the order of their paths; headers of one path stay in the order in which
they came.

* `insert` adds the header and nothing else (`Program.mem_insertHeader`).
* Types are looked up by name over all headers, and answer to their simple name as well as to their full type.
  A name stands for the first enum that answers to it (`Program.findEnum?`), but for a class only if it is the
  one that does (`Program.findClass?`).
* A class is known by its position among all classes, which no derivation changes (`Program.modifyClass`). -/

namespace HeaderReflection

/-- The headers of a program. -/
structure Program where
  headers : List Header := []
  deriving DecidableEq, Repr

/-! ### Headers and types -/

namespace Program

/-- Puts a header behind those whose paths do not come after its own. -/
def insertHeader (h : Header) : List Header → List Header
  | [] => [h]
  | g :: gs => if h.path.text < g.path.text then h :: g :: gs else g :: insertHeader h gs

/-- The program with one more header. -/
def insert (p : Program) (h : Header) : Program := ⟨insertHeader h p.headers⟩

/-- Every class, in the order of the headers. -/
def classes (p : Program) : List Class := p.headers.flatMap (·.classes)

/-- Every enum, in the order of the headers. -/
def enums (p : Program) : List Enumeration := p.headers.flatMap (·.enums)

/-- How many declarations a class and its members are. -/
def classSize (c : Class) : Nat := 1 + c.fields.length + c.methods.length + c.properties.length

/-- How many declarations an enum and its enumerators are. -/
def enumSize (e : Enumeration) : Nat := 1 + e.enumerators.length

/-- How many declarations there are. -/
def size (p : Program) : Nat :=
  p.enums.foldl (fun n e => n + enumSize e) (p.classes.foldl (fun n c => n + classSize c) 0)

/-! ### Looking types up -/

/-- The first enum with a name, qualified or not. -/
def findEnum? (p : Program) (name : String) : Option Enumeration :=
  p.enums.find? (·.isNamed name)

/-- Whether a name is that of an enum. -/
def hasEnum (p : Program) (name : String) : Bool := (p.findEnum? name).isSome

/-- The classes with a name, qualified or not. -/
def classesNamed (p : Program) (name : String) : List Class :=
  p.classes.filter (·.isNamed name)

/-- A name without the blanks around it and the colons that anchor it. -/
def anchored (name : String) : String :=
  match Text.trim name.toList with
  | ':' :: ':' :: s => String.ofList s
  | s => String.ofList s

/-- The positions of the classes with a name. -/
def positionsNamed (p : Program) (name : String) : List Nat :=
  (p.classes.zipIdx.filter (·.1.isNamed name)).map (·.2)

/-- The position of the one class that a name, as it is written in a header, stands for. -/
def position? (p : Program) (name : String) : Option Nat :=
  let name := anchored name
  if name.isEmpty then none
  else
    match p.positionsNamed name with
    | [i] => some i
    | _ => none

/-- The one class that a name stands for. -/
def findClass? (p : Program) (name : String) : Option Class :=
  (p.position? name).bind (p.classes[·]?)

/-! ### Changing a class -/

/-- Changes the class at a position among the classes of some headers. -/
def modifyClassIn (f : Class → Class) : Nat → List Header → List Header
  | _, [] => []
  | i, h :: hs =>
    if i < h.classes.length then { h with classes := h.classes.modify i f } :: hs
    else h :: modifyClassIn f (i - h.classes.length) hs

/-- The program with the class at a position changed. -/
def modifyClass (p : Program) (i : Nat) (f : Class → Class) : Program :=
  ⟨modifyClassIn f i p.headers⟩

theorem mem_insertHeader {g h : Header} {l : List Header} :
    g ∈ insertHeader h l ↔ g = h ∨ g ∈ l := by
  induction l with
  | nil => simp [insertHeader]
  | cons k l ih =>
      simp only [insertHeader]
      split
      · simp
      · simp only [List.mem_cons, ih]
        exact or_left_comm

end Program

end HeaderReflection
