import HeaderReflection.Program.Basic

/-! # Entities

Every declaration of a program with what owns it (`Entity`), in the order in which names are looked up: each
class before its fields, methods and properties, and each enum before its enumerators; classes come before
enums.

The full name of a member is that of its owner with its own name behind it.  Full names of all kinds share one
space, and the first declaration with a full name is the one that is found (`Program.findEntity?`). -/

namespace HeaderReflection

/-! ### Declarations with their owners -/

/-- A declaration with its owner. -/
inductive Entity where
  | classType (c : Class)
  | field (owner : Class) (f : Field)
  | method (owner : Class) (m : Method)
  | property (owner : Class) (p : Property)
  | enumType (e : Enumeration)
  | enumerator (owner : Enumeration) (x : Enumerator)
  deriving DecidableEq, Repr

namespace Entity

/-- The kind of a declaration. -/
def kind : Entity → DeclarationKind
  | .classType _ => .classType
  | .field _ _ => .field
  | .method _ _ => .method
  | .property _ _ => .property
  | .enumType _ => .enumType
  | .enumerator _ _ => .enumerator

/-- What all declarations have in common. -/
def declaration : Entity → Declaration
  | .classType c => c.toDeclaration
  | .field _ f => f.toDeclaration
  | .method _ m => m.toDeclaration
  | .property _ p => p.toDeclaration
  | .enumType e => e.toDeclaration
  | .enumerator _ x => x.toDeclaration

/-- The full name of a declaration. -/
def fullName : Entity → String
  | .classType c => c.fullName
  | .field c f => c.memberName f.name
  | .method c m => c.methodName m
  | .property c p => c.memberName p.name
  | .enumType e => e.fullName
  | .enumerator e x => e.fullName ++ "." ++ x.name

/-- A class and its members. -/
def ofClass (c : Class) : List Entity :=
  .classType c :: (c.fields.map (.field c) ++ c.methods.map (.method c) ++
    c.properties.map fun p => .property c p.2)

/-- An enum and its enumerators. -/
def ofEnum (e : Enumeration) : List Entity := .enumType e :: e.enumerators.map (.enumerator e)

variable {P : Entity → Prop}

theorem forall_mem_ofClass {c : Class} :
    (∀ d ∈ ofClass c, P d) ↔ P (.classType c) ∧ (∀ f ∈ c.fields, P (.field c f)) ∧
      (∀ m ∈ c.methods, P (.method c m)) ∧ ∀ q ∈ c.properties, P (.property c q.2) := by
  simp only [ofClass, List.forall_mem_cons, List.forall_mem_append, List.forall_mem_map, and_assoc]

theorem forall_mem_ofEnum {e : Enumeration} :
    (∀ d ∈ ofEnum e, P d) ↔ P (.enumType e) ∧ ∀ x ∈ e.enumerators, P (.enumerator e x) := by
  simp only [ofEnum, List.forall_mem_cons, List.forall_mem_map]

end Entity

/-! ### Headers and programs -/

/-- Every declaration of a header. -/
def Header.entities (h : Header) : List Entity :=
  h.classes.flatMap Entity.ofClass ++ h.enums.flatMap Entity.ofEnum

theorem Header.forall_mem_entities {P : Entity → Prop} {h : Header} :
    (∀ d ∈ h.entities, P d) ↔
      (∀ c ∈ h.classes, ∀ d ∈ Entity.ofClass c, P d) ∧ ∀ e ∈ h.enums, ∀ d ∈ Entity.ofEnum e, P d := by
  simp only [Header.entities, List.forall_mem_append, List.forall_mem_flatMap]

namespace Program

/-- Every declaration. -/
def entities (p : Program) : List Entity :=
  p.classes.flatMap Entity.ofClass ++ p.enums.flatMap Entity.ofEnum

/-- The first declaration with a full name. -/
def findEntity? (p : Program) (fullName : String) : Option Entity :=
  p.entities.find? (·.fullName == fullName)

end Program

end HeaderReflection
