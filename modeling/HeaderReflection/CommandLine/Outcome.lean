import HeaderReflection.CommandLine.Command
import HeaderReflection.CommandLine.Report
import HeaderReflection.Database

/-! # Carrying out commands

A scan loads its settings, runs on the headers, and reports.

* Settings come from a configuration file or are the default ones, and the choices of the command are applied
  to them (`ScanChoices.settings`).
* The paths of the command are scanned, and if it names none, those of the settings (`ScanChoices.targets`).
* A dump also has to know where to write before it runs, and writes only after a run without errors
  (`Command.runDump`).  The file is written before anything is shown.
* A command that is quiet shows no summary, but the errors of a run are told in any case.

What goes wrong before a run is a message, and so is each error of a run and a database that cannot be
written.  A run that is interrupted has no result, so there is nothing to tell but that the command failed. -/

namespace HeaderReflection

/-- What a fault of a configuration file tells the user. -/
def ConfigurationFault.messages (f : ConfigurationFault) : List String :=
  (f.fault?.map Fault.format).toList

/-! ### Scans -/

namespace ScanChoices

/-- The settings with the choices made. -/
def apply (c : ScanChoices) (s : Settings) : Settings :=
  { s with
    recursive := c.recursive.getD s.recursive
    quiet := c.quiet.getD s.quiet
    verbose := c.verbose.getD s.verbose }

/-- Loads the settings of a scan. -/
def settings (c : ScanChoices) (e : Environment) (t : FileTree) :
    Except ConfigurationFault Settings :=
  (Settings.load e t c.config).map c.apply

/-- The paths to scan. -/
def targets (c : ScanChoices) (s : Settings) : List SourcePath :=
  if c.paths.isEmpty then s.files else c.paths

/-- Runs a new session on the paths to scan. -/
def run (c : ScanChoices) (σ : Schedule) (t : FileTree) (s : Settings) :
    Except Interruption (RunResult × Session) :=
  (Session.ofSettings s).run t σ (some (c.targets s))

end ScanChoices

/-! ### Commands -/

namespace Command

/-- What a scan shows unless it is quiet. -/
def unlessQuiet (s : Settings) (l : List Printed) : List Printed := if s.quiet then [] else l

variable (e : Environment) (σ : Schedule) (t : FileTree)

/-- Scans headers. -/
def runScan (c : ScanChoices) : Report :=
  match c.settings e t with
  | .error f => .failed f.messages
  | .ok s =>
    match c.run σ t s with
    | .error _ => .failed []
    | .ok (r, session) =>
      let report : Report := {
        status := if r.isOk then .success else .failure
        messages := r.diagnostics.map Diagnostic.format }
      report.showing e.console (unlessQuiet s (r.summary session.program))

/-- The message that there is nowhere to write to. -/
def noOutputMessage : String :=
  "No output path: pass --output or set database_path in the config"

/-- Scans headers and writes their database, unless something is wrong with them, the database has a number
that is too long, or the file cannot be written. -/
def runDump (c : ScanChoices) (output : Option SourcePath) : Report :=
  match c.settings e t with
  | .error f => .failed f.messages
  | .ok s =>
    match output <|> s.databasePath with
    | none => .failed [noOutputMessage]
    | some target =>
      match c.run σ t s with
      | .error _ => .failed []
      | .ok (r, session) =>
        let messages := r.diagnostics.map Diagnostic.format
        match Database.write session.program with
        | .error _ => .failed messages
        | .ok text =>
          if r.isOk && t.canWrite target then
            let report : Report := { messages := messages, written := some (target, text) }
            report.showing e.console (unlessQuiet s
              (r.summary session.program ++ [.line ("[green]Wrote[/green] " ++ target.text)]))
          else .failed messages

/-- Lists known attributes. -/
def runAttributes (category : Option String) : Report :=
  let groups := Catalog.standard.byCategory
  let report : Report := {}
  match category with
  | none => report.showing e.console (groups.map fun g => .table (Attribute.table g.1 g.2))
  | some n =>
    match groups.get? n with
    | some l => report.showing e.console [.table (Attribute.table n l)]
    | none =>
      (Report.failed []).showing e.console
        [.line ("[yellow]No attributes in category '" ++ n ++ "'[/yellow]")]

/-- Carries out a command. -/
def run : Command → Report
  | .scan c => runScan e σ t c
  | .dump c o => runDump e σ t c o
  | .attributes n => runAttributes e n

end Command

end HeaderReflection
