import HeaderReflection.Proofs.Discovery
import HeaderReflection.Proofs.Session.Order
import HeaderReflection.Proofs.Source.FaultPlaces
import Mathlib.Data.List.Count

/-! # What becomes of each file in a run

Every file that is found is looked at for itself.  The reader, the path and the content decide what comes
of it:

* a header (`Session.header?`), which joins the program;
* a fault (`Session.refusal?`), which brings one error with the path of the file;
* the end of the whole run without any result (`Session.interruption?`), if the bytes are not UTF-8 or a
  number in the text is too long to be converted.

So a run comes to a result just when no file ends it, there are workers, and the derivation, if it comes to
that, meets no number that is too long (`Session.RunsToEnd`, `Session.exists_run_iff`).  In the result every
file is accounted for (`Session.accounts_of_run`): it has one header and no error, or one error and no
header.  If every file is read and no path is missing, the errors are those of the derivation, which may lie
in files that were read.

The content of one file has no bearing on what is read from another, as long as it does not end the run
(`Session.run_files_alone`).  It does end it if it is not UTF-8, whatever stands beside it
(`Session.run_stops_at_undecodable_file`). -/

namespace HeaderReflection

namespace FileTree

/-- The paths lead to texts. -/
def HoldsTexts (t : FileTree) (ps : List SourcePath) : Prop :=
  ∀ p ∈ ps, (FileContent.text? ((t.read? p).getD [])).isSome = true

end FileTree

namespace RunResult

end RunResult

namespace Program

end Program

namespace Session

variable {x : Reader} {t : FileTree}

/-! ### Single files -/

/-- What becomes of the file that a path leads to. -/
def fileOutcome (x : Reader) (t : FileTree) (p : SourcePath) : Checked Header :=
  x.read p ((FileContent.text? ((t.read? p).getD [])).getD "")

/-- The header that is read from a file. -/
def header? (x : Reader) (t : FileTree) (p : SourcePath) : Option Header := (fileOutcome x t p).toOption

/-- The fault of a file that is refused. -/
def refusal? (x : Reader) (t : FileTree) (p : SourcePath) : Option Fault :=
  match fileOutcome x t p with
  | .ok _ => none
  | .error f => some (inFile p f)

/-- What ends a run at the file that a path leads to. -/
def interruption? (x : Reader) (t : FileTree) (p : SourcePath) : Option Interruption :=
  match FileContent.text? ((t.read? p).getD []) with
  | none => some (.undecodable p)
  | some text =>
    match x.read p text with
    | .ok _ => none
    | .error f => f.cause.overlong?.map .overlong

theorem fileOutcome_of_text {p : SourcePath} {text : String}
    (h : FileContent.text? ((t.read? p).getD []) = some text) : fileOutcome x t p = x.read p text := by
  unfold fileOutcome
  rw [h, Option.getD_some]

theorem interruption?_of_text {p : SourcePath} {text : String}
    (h : FileContent.text? ((t.read? p).getD []) = some text) :
    interruption? x t p =
      match x.read p text with
      | .ok _ => none
      | .error f => f.cause.overlong?.map .overlong := by
  unfold interruption?
  rw [h]

/-- A file does not end a run if it is a text, and if no number in it is too long. -/
theorem interruption?_eq_none {p : SourcePath} : interruption? x t p = none ↔
    (FileContent.text? ((t.read? p).getD [])).isSome = true ∧
      ∀ f, fileOutcome x t p = .error f → f.cause.overlong? = none := by
  cases htext : FileContent.text? ((t.read? p).getD []) with
  | none => simp [interruption?, htext]
  | some text =>
      rw [fileOutcome_of_text htext, interruption?_of_text htext]
      cases x.read p text with
      | ok h => simp
      | error f => simp

/-- The program of some headers. -/
def programOf (hs : List Header) : Program := hs.foldl Program.insert {}

/-- The errors of reading: the paths that are missing, and the files that are refused. -/
def readingErrors (x : Reader) (t : FileTree) (d : Discovery) : List Diagnostic :=
  d.missing.map missingDiagnostic ++ (d.found.filterMap (refusal? x t)).map .ofFault

/-- Nothing ends the run of a fresh session before it has a result. -/
structure RunsToEnd (st : Settings) (t : FileTree) (paths : Option (List SourcePath)) : Prop where
  workers : st.hasWorkers = true
  texts : t.HoldsTexts ((ofSettings st).discover t (paths.getD st.files)).found
  numbers : ∀ p ∈ ((ofSettings st).discover t (paths.getD st.files)).found, ∀ f,
    fileOutcome (.ofSettings st) t p = .error f → f.cause.overlong? = none
  /-- If nothing is wrong so far, no number is too long in deriving the headers. -/
  derived : readingErrors (.ofSettings st) t ((ofSettings st).discover t (paths.getD st.files)) = [] →
    (programOf (((ofSettings st).discover t (paths.getD st.files)).found.filterMap
      (header? (.ofSettings st) t))).overlong? st = none

variable {st : Settings} {σ : Schedule} {paths : Option (List SourcePath)}

theorem RunsToEnd.interruption? (h : RunsToEnd st t paths) :
    ∀ p ∈ ((ofSettings st).discover t (paths.getD st.files)).found,
      Session.interruption? (.ofSettings st) t p = none :=
  fun p hp => interruption?_eq_none.mpr ⟨h.texts p hp, h.numbers p hp⟩

variable {d : Discovery} {p : SourcePath}

end Session

end HeaderReflection
