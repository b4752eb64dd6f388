import HeaderReflection.Declaration.Accessor
import HeaderReflection.Derivation.Synthesis
import HeaderReflection.Derivation.Traits

/-! # Effects

Deriving a class changes it by small effects, which are planned first and then performed in order.

* An effect adds a note or traits to a declaration, makes a method, binds a method to a property, declares a
  flag or warns, among other things; or it is a fault.
* The first effect that fails ends the work and leaves everything before it done (`ClassWork.run`).
* The methods that are made are kept apart from those of the class until the end, but they are registered at
  once with the declaration that they are made from (`ClassWork.synthesize`).  So a role is taken as soon as a
  method is made in it. -/

namespace HeaderReflection

/-! ### Declarations of a class -/

namespace Class

/-- The declaration that an origin stands for. -/
def origin? (c : Class) : Origin → Option Declaration
  | .owner => some c.toDeclaration
  | .field i => c.fields[i]?.map (·.toDeclaration)
  | .method i => c.methods[i]?.map (·.toDeclaration)

/-- The class with the declaration of an origin changed. -/
def updateOrigin (c : Class) (f : Declaration → Declaration) : Origin → Class
  | .owner => { c with toDeclaration := f c.toDeclaration }
  | .field i =>
    { c with fields := c.fields.modify i fun x => { x with toDeclaration := f x.toDeclaration } }
  | .method i =>
    { c with methods := c.methods.modify i fun x => { x with toDeclaration := f x.toDeclaration } }

/-- The method that was made from an origin in a role. -/
def synthesized? (c : Class) (o : Origin) (role : String) : Option MethodLink :=
  (c.origin? o).bind (·.synthesized.get? role)

/-- The property of the given name stands for a field, whose type it has unless it has one. -/
def claimProperty (c : Class) (name : String) (field : Nat) (type : String) : Class :=
  c.updateProperty name fun p =>
    { p with source := some field, type := if p.type.isEmpty then type else p.type }

end Class

/-- The kind of declaration that an origin stands for. -/
def Origin.kind : Origin → DeclarationKind
  | .owner => .classType
  | .field _ => .field
  | .method _ => .method

/-- Adds a method to the last flag of the given name. -/
def attachMethod (flag : String) (m : MethodLink) : List DeclaredFlag → List DeclaredFlag
  | [] => []
  | f :: fs =>
    if f.name = flag ∧ ∀ g ∈ fs, g.name ≠ flag then { f with methods := f.methods ++ [m] } :: fs
    else f :: attachMethod flag m fs

/-! ### Effects and their runs -/

/-- A change in the course of deriving a class. -/
inductive Effect where
  | annotate (o : Origin) (t : Traits)
  | note (o : Origin) (n : DocNote)
  /-- The class gets a proxy. -/
  | raiseProxy
  | synthesize (s : Synthesis) (d : MethodDraft)
  | claimProperty (name : String) (field : Nat) (type : String)
  /-- A method made from the field declared at a line becomes an accessor. -/
  | bind (role : AccessorRole) (property : String) (m : MethodLink) (line : Nat)
  | addToBody (text : String)
  | declareFlag (f : DeclaredFlag)
  | attach (flag : String) (m : MethodLink)
  | warn (line : Nat) (message : String)
  | fail (f : Fault)
  deriving DecidableEq, Repr

/-- A class in the course of being derived. -/
structure ClassWork where
  owner : Class
  /-- The methods made so far. -/
  made : List Method := []
  warnings : List Diagnostic := []
  deriving DecidableEq, Repr

namespace ClassWork

/-- Makes a method, unless its origin has one in that role. -/
def synthesize (w : ClassWork) (s : Synthesis) (d : MethodDraft) : Checked ClassWork :=
  match w.owner.synthesized? s.origin s.role with
  | some m =>
    .error ⟨.synthesizedTwice s.role w.owner.name m.name, some w.owner.path, s.line, 1, []⟩
  | none =>
    let m := w.owner.synthesize s d
    .ok { w with
      owner := w.owner.updateOrigin (fun o => { o with synthesized := o.synthesized.put s.role m.link })
        s.origin
      made := w.made ++ [m] }

/-- Performs an effect. -/
def perform (w : ClassWork) : Effect → Checked ClassWork
  | .annotate o t =>
    .ok { w with owner := w.owner.updateOrigin (fun d => d.annotate o.kind t) o }
  | .note o n => .ok { w with owner := w.owner.updateOrigin (fun d => d.note n) o }
  | .raiseProxy => .ok { w with owner := { w.owner with flags := w.owner.flags.insert .hasProxy } }
  | .synthesize s d => w.synthesize s d
  | .claimProperty name i type => .ok { w with owner := w.owner.claimProperty name i type }
  | .bind role property m line =>
    match w.owner.bindAccessor role property m with
    | .ok c => .ok { w with owner := c }
    | .error e => .error ⟨e, some w.owner.path, line, 1, []⟩
  | .addToBody text =>
    .ok { w with owner := { w.owner with bodyAdditions := w.owner.bodyAdditions ++ [text] } }
  | .declareFlag f =>
    .ok { w with owner := { w.owner with declaredFlags := w.owner.declaredFlags ++ [f] } }
  | .attach flag m =>
    .ok { w with
      owner := { w.owner with declaredFlags := attachMethod flag m w.owner.declaredFlags } }
  | .warn line message =>
    .ok { w with
      warnings := w.warnings ++ [⟨.warning, message, some w.owner.path, line, 1, none⟩] }
  | .fail f => .error f

/-- Performs effects in order, up to the first that fails. -/
def run (w : ClassWork) : List Effect → ClassWork × Option Fault
  | [] => (w, none)
  | e :: es =>
    match w.perform e with
    | .ok v => v.run es
    | .error f => (w, some f)

end ClassWork

end HeaderReflection
