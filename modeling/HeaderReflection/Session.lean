import HeaderReflection.Configuration.Load
import HeaderReflection.Derivation.Outcome
import HeaderReflection.Discovery
import HeaderReflection.Schedule
import HeaderReflection.Source.Progress

/-! # Sessions

A session reads headers into a program and derives it.  The headers of a session stay, and its
warnings add up; deriving goes over the whole program every time.  A run finds headers, reads them,
and derives the program if nothing went wrong before.

Most of what goes wrong is a fault, which is reported.  Three things are not, and end a run or a
derivation without a result (`Interruption`): the bytes of a header are not UTF-8, a number is too long
to be converted, or there are no workers to do the work.

Headers are read at the same time too, but since no two of a run have one path nothing depends on the
order.  Deriving depends on it in the order of the warnings, so it is told by a schedule. -/

namespace HeaderReflection

/-- A reader, the program read so far, and the warnings on it. -/
structure Session where
  reader : Reader
  program : Program := {}
  warnings : List Diagnostic := []

/-! ### Results -/

/-- What ends a run or a derivation before it has a result. -/
inductive Interruption where
  /-- The bytes of a file are not UTF-8. -/
  | undecodable (path : SourcePath)
  /-- A number is too long to be converted. -/
  | overlong (e : Text.Overlong)
  | noWorkers
  deriving DecidableEq, Repr

/-- What became of a run. -/
structure RunResult where
  files : List SourcePath := []
  parsed : List Header := []
  errors : List Diagnostic := []
  warnings : List Diagnostic := []
  deriving DecidableEq, Repr

namespace RunResult

/-- Nothing went wrong. -/
def isOk (r : RunResult) : Bool := r.errors.isEmpty

/-- Errors first, then warnings. -/
def diagnostics (r : RunResult) : List Diagnostic := r.errors ++ r.warnings

end RunResult

namespace Session

/-- A session that has read nothing. -/
def ofSettings (s : Settings) : Session := { reader := .ofSettings s }

/-- The present settings. -/
def settings (s : Session) : Settings := s.reader.settings

/-- The session with other settings; its reader goes on answering to the same markers. -/
def withSettings (s : Session) (t : Settings) : Session :=
  { s with reader := { s.reader with settings := t } }

/-- Reads a text as a header of the program. -/
def readHeader (s : Session) (path : SourcePath) (text : String) : Checked (Header × Session) := do
  let h ← { s.reader with isEnum := s.program.hasEnum }.read path text
  return (h, { s with program := s.program.insert h })

/-! ### Derivations -/

/-- The faults and the warnings of deriving the program. -/
structure Derivation where
  faults : List Fault
  warnings : List Diagnostic
  deriving DecidableEq, Repr

/-- The warnings of some jobs in the order of a schedule. -/
def interleaved (s : Session) (σ : Schedule) (jobs : List (List Diagnostic)) : List Diagnostic :=
  Schedule.interleave (σ.turns.map s.settings.turn) jobs

/-- The session behind a derivation that was interrupted: some classes are derived, each of them to its
end, and no enum is. -/
def interrupted (s : Session) (σ : Schedule) : Session :=
  let done := (List.range s.program.classes.length).filter σ.reached
  { s with
    program := s.program.derivedAt s.settings done
    warnings := s.warnings ++
      s.interleaved σ (done.filterMap ((s.program.classWarnings s.settings)[·]?)) }

/-- Derives the program, unless a number in it is too long or there are no workers. -/
def derive (s : Session) (σ : Schedule) : Except Interruption Derivation × Session :=
  if s.settings.hasWorkers then
    match s.program.overlong? s.settings with
    | some e => (.error (.overlong e), s.interrupted σ)
    | none =>
      let warnings := s.interleaved σ (s.program.classWarnings s.settings)
      (.ok ⟨s.program.derivationFaults s.settings, warnings⟩,
        { s with
          program := s.program.derived s.settings
          warnings := s.warnings ++ warnings })
  else (.error .noWorkers, s)

/-! ### Runs -/

/-- What became of reading files. -/
structure ReadResult where
  parsed : List Header := []
  faults : List Fault := []
  deriving DecidableEq, Repr

/-- The place of a fault in reading a file is known at least to be in the file. -/
def inFile (p : SourcePath) (f : Fault) : Fault := f.placedAt (some p) 0

/-- Reads files in order.  The first that is interrupted ends it. -/
def readFiles (t : FileTree) (s : Session) (r : ReadResult) :
    List SourcePath → Except Interruption (ReadResult × Session)
  | [] => .ok (r, s)
  | p :: ps =>
    match ((t.read? p).getD []).text? with
    | none => .error (.undecodable p)
    | some text =>
      match s.readHeader p text with
      | .ok (h, s) => readFiles t s { r with parsed := r.parsed ++ [h] } ps
      | .error f =>
        match f.cause.overlong? with
        | some e => .error (.overlong e)
        | none => readFiles t s { r with faults := r.faults ++ [inFile p f] } ps

/-- The report of a path that leads nowhere. -/
def missingDiagnostic (p : SourcePath) : Diagnostic :=
  .ofFault ⟨.noSuchPath, some p, 0, 1, []⟩

/-- Finds the headers that the paths lead to. -/
def discover (t : FileTree) (s : Session) (paths : List SourcePath) : Discovery :=
  .ofPaths s.settings t paths

/-- Derives the program unless there are errors already, and reports on everything. -/
def conclude (s : Session) (σ : Schedule) (files : List SourcePath) (parsed : List Header)
    (errors : List Diagnostic) : Except Interruption (RunResult × Session) :=
  if errors.isEmpty then
    match s.derive σ with
    | (.ok d, s) => .ok (⟨files, parsed, d.faults.map .ofFault, s.warnings⟩, s)
    | (.error i, _) => .error i
  else .ok (⟨files, parsed, errors, s.warnings⟩, s)

/-- Runs on the headers that the paths lead to, or on those of the settings. -/
def run (t : FileTree) (s : Session) (σ : Schedule) (paths : Option (List SourcePath)) :
    Except Interruption (RunResult × Session) :=
  let d := s.discover t (paths.getD s.settings.files)
  if s.settings.hasWorkers then
    match readFiles t s {} d.found with
    | .error i => .error i
    | .ok (r, s) =>
      s.conclude σ d.found r.parsed (d.missing.map missingDiagnostic ++ r.faults.map .ofFault)
  else .error .noWorkers

end Session

end HeaderReflection
