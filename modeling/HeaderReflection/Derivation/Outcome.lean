import HeaderReflection.Derivation.NameIndex
import HeaderReflection.Derivation.Plan
import HeaderReflection.Program.Basic

/-! # Deriving a program

Once all headers are read, every class is derived for itself.

* The plan of the class is performed, the methods made join those that it declares, and its members are
  checked against each other (`Class.derive`).
* A fault ends the work on its class and leaves done what was done; the other classes go on.
* Then every enum is annotated, unless a derivation was interrupted.

A derivation leaves a result in any case, with a fault if there was one and with warnings (`Outcome`).  One
fault is not like the others: a number that is too long to be written ends the whole derivation
(`Program.overlong?`).  What it has done by then is up to the workers, and is told by the positions of the
classes that were derived (`Program.derivedAt`). -/

namespace HeaderReflection

/-- What deriving something left, and what went wrong. -/
structure Outcome (α : Type) where
  result : α
  fault : Option Fault := none
  warnings : List Diagnostic := []
  deriving DecidableEq, Repr

/-! ### Properties -/

namespace Property

/-- The property with the flags that its field hands down. -/
def inherit (fields : List Field) (p : Property) : Property :=
  match p.source.bind (fields[·]?) with
  | none => p
  | some f =>
    { p with
      flags := (p.flags.insert .fromField).insertIf (f.flags.has .noEdit) .noEdit
        |>.insertIf (f.flags.has .noScript) .noScript }

/-- The type that the accessors of a property give it. -/
def accessorType (p : Property) : String :=
  match p.getter, p.setter with
  | some m, _ => m.returnType
  | none, some m => (m.parameters.head?.map (·.type)).getD p.type
  | none, none => p.type

/-- The property as everyone sees it. -/
def materialize (p : Property) : Property :=
  { p with access := .everyone, type := if p.type.isEmpty then p.accessorType else p.type }

end Property

/-! ### Classes -/

namespace Class

/-- The class with its properties changed. -/
def mapProperties (c : Class) (f : Property → Property) : Class :=
  { c with properties := c.properties.map fun p => (p.1, f p.2) }

/-- The fault of the first abstract method. -/
def abstractFault? (c : Class) : Option Fault :=
  (c.methods.find? (·.flags.has .abstract)).map fun m =>
    ⟨.abstractInConcrete m.name c.fullType, some c.path, m.actualLine, 1, []⟩

/-- The class with the methods that were made, indexed by name. -/
def withMade (c : Class) (made : List Method) : Class :=
  let c := c.mapProperties (·.inherit c.fields)
  { c with methods := c.methods ++ made }.indexMethods

/-- What is wrong with the members of a class. -/
def memberFault? (c : Class) (isAbstract : Bool) : Option Fault :=
  c.nameFault? <|> if isAbstract then none else c.abstractFault?

/-- Derives a class. -/
def derive (x : PlanContext) (c : Class) : Outcome Class :=
  match c.choices x with
  | .error f => { result := c, fault := some f }
  | .ok h =>
    match ClassWork.run { owner := c } (c.plan x h) with
    | (w, some f) => ⟨w.owner, some f, w.warnings⟩
    | (w, none) =>
      let c := w.owner.withMade w.made
      match c.memberFault? h.isAbstract with
      | some f => ⟨c, some f, w.warnings⟩
      | none => ⟨c.mapProperties Property.materialize, none, w.warnings⟩

/-- A class that is derived without a fault went through its whole plan and through the checks of its
members. -/
theorem exists_run_of_derive {x : PlanContext} {c : Class} (hfault : (c.derive x).fault = none) :
    ∃ h w, c.choices x = .ok h ∧ ClassWork.run { owner := c } (c.plan x h) = (w, none) ∧
      (w.owner.withMade w.made).memberFault? h.isAbstract = none ∧
      (c.derive x).result = (w.owner.withMade w.made).mapProperties Property.materialize := by
  unfold derive at hfault ⊢
  cases hchoices : c.choices x with
  | error f => simp [hchoices] at hfault
  | ok h =>
      rcases hrun : ClassWork.run { owner := c } (c.plan x h) with ⟨w, _ | f⟩
      · cases hmember : (w.owner.withMade w.made).memberFault? h.isAbstract with
        | some f => simp [hchoices, hrun, hmember] at hfault
        | none => exact ⟨h, w, rfl, hrun, hmember, by simp [hrun, hmember]⟩
      · simp [hchoices, hrun] at hfault

end Class

namespace Enumerator

/-- Derives an enumerator. -/
def derive (isEnum : String → Bool) (path : SourcePath) (x : Enumerator) : Checked Enumerator := do
  let traits ← (x.bearer .enumerator path isEnum).traits
  let d := x.toDeclaration.annotate .enumerator traits
  return { x with
    toDeclaration :=
      if x.opposite.isEmpty then d
      else
        d.note (.plain "Opposite"
          ("The complement of this flag value is named `" ++ x.opposite ++ "`.")) }

end Enumerator

namespace Enumeration

/-- Derives an enum. -/
def derive (isEnum : String → Bool) (e : Enumeration) : Checked Enumeration := do
  let traits ← (e.bearer .enumType e.path isEnum).traits
  let d := e.toDeclaration.annotate .enumType traits
  let enumerators ← e.enumerators.mapM (·.derive isEnum e.path)
  return { e with
    toDeclaration :=
      if e.flags.has .list then
        d.note (.plain "List Enum"
          ("This enum represents a list of some sort, and its values will therefore be " ++
            "incrementable/decrementable (with wraparound behavior)."))
      else d
    enumerators }

/-- Derives an enum, which stays as it is if that fails. -/
def outcome (isEnum : String → Bool) (e : Enumeration) : Outcome Enumeration :=
  match e.derive isEnum with
  | .ok d => { result := d }
  | .error f => { result := e, fault := some f }

end Enumeration

/-! ### Programs -/

namespace Program

/-- What plans depend on in a program. -/
def planContext (s : Settings) (p : Program) : PlanContext := ⟨s, p.findEnum?⟩

/-- Derives every class and every enum. -/
def derived (s : Settings) (p : Program) : Program :=
  ⟨p.headers.map fun h =>
    { h with
      classes := h.classes.map fun c => (c.derive (p.planContext s)).result
      enums := h.enums.map fun e => (e.outcome p.hasEnum).result }⟩

/-- What goes wrong in deriving a program: first with classes, then with enums. -/
def derivationFaults (s : Settings) (p : Program) : List Fault :=
  (p.classes.filterMap fun c =>
      (c.derive (p.planContext s)).fault.map (·.placedAt (some c.path) c.line)) ++
    p.enums.filterMap fun e => (e.outcome p.hasEnum).fault.map (·.placedAt (some e.path) e.line)

/-- What deriving each class of a program warns of. -/
def classWarnings (s : Settings) (p : Program) : List (List Diagnostic) :=
  p.classes.map fun c => (c.derive (p.planContext s)).warnings

/-- The first number that is too long in deriving a program. -/
def overlong? (s : Settings) (p : Program) : Option Text.Overlong :=
  (p.derivationFaults s).findSome? (·.cause.overlong?)

/-- Derives the classes at some positions and nothing else. -/
def derivedAt (s : Settings) (p : Program) (positions : List Nat) : Program :=
  positions.foldl (fun q i => q.modifyClass i fun c => (c.derive (p.planContext s)).result) p

end Program

end HeaderReflection
