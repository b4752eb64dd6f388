import HeaderReflection.Program.Basic

/-! # Ancestors

From a class the walk goes to the one class that its base names, and so on upwards.  It ends where a
base names no class or several, and before a class that was visited.  What is left to visit shrinks
with every step, so the walk ends on every program, whatever cycles its bases form. -/

namespace HeaderReflection.Program

/-- The position of the one class that the class at `i` derives from. -/
def baseOf? (p : Program) (i : Nat) : Option Nat :=
  p.classes[i]?.bind fun c => p.position? c.baseClass

/-- The walk from the class at `i` over the positions that are not visited yet. -/
def ascend (p : Program) (unvisited : List Nat) (i : Nat) : List Nat :=
  match p.baseOf? i with
  | none => []
  | some j => if j ∈ unvisited then j :: ascend p (unvisited.erase j) j else []
termination_by unvisited.length
decreasing_by
  rename_i h
  rw [List.length_erase_of_mem h]
  have := List.length_pos_of_mem h
  omega

/-- The positions of the ancestors of the class at `i`, the nearest first. -/
def ancestorPositions (p : Program) (i : Nat) : List Nat :=
  p.ascend ((List.range p.classes.length).erase i) i

/-- The ancestors of the class at `i`, the nearest first. -/
def ancestors (p : Program) (i : Nat) : List Class :=
  (p.ancestorPositions i).filterMap (p.classes[·]?)

end HeaderReflection.Program
