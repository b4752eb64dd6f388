/-! # Schedules

Classes are derived by workers that run at the same time and append their warnings to one list.  Each class
brings its own warnings in order; which class goes on next is not up to the program.  A schedule decides it
turn by turn, and by `isInterleaving_iff` in the theory every way to interleave the warnings comes from a
schedule.

A schedule also decides how far the workers get when the work is interrupted. -/

namespace HeaderReflection

/-- What is up to the workers. -/
structure Schedule where
  /-- For each turn, which of the unfinished jobs goes on, counted from the first of them.  Behind the last
  turn the jobs are finished one after the other. -/
  turns : List Nat := []
  /-- Which jobs are done when the work is interrupted, by their positions. -/
  reached : Nat → Bool := fun _ => true

namespace Schedule

variable {α : Type}

/-- The next item of the `i`th unfinished job, and what is left of the jobs.  If there are not so many, the
last one goes on; if there are none, nothing is left to do. -/
def takeTurn : Nat → List (List α) → Option (α × List (List α))
  | _, [] => none
  | i, [] :: jobs => (takeTurn i jobs).map fun r => (r.1, [] :: r.2)
  | 0, (a :: job) :: jobs => some (a, job :: jobs)
  | i + 1, (a :: job) :: jobs =>
    match takeTurn i jobs with
    | some r => some (r.1, (a :: job) :: r.2)
    | none => some (a, job :: jobs)

/-- The items of the jobs in the order in which the turns bring them. -/
def interleave : List Nat → List (List α) → List α
  | [], jobs => jobs.flatten
  | i :: turns, jobs =>
    match takeTurn i jobs with
    | some r => r.1 :: interleave turns r.2
    | none => []

end Schedule

end HeaderReflection
