import HeaderReflection.Environment
import HeaderReflection.Fault
import HeaderReflection.FileTree
import HeaderReflection.Text.Lines

/-! # Configuration files

Settings come from a configuration file, which may be missing unless it was asked for by name.  Files
that it lists are seen from its own directory, the path of the database from the current one.

Some of what goes wrong is a fault with a message (`ConfigurationFault.fault?`): a file that is missing,
refused by the format, no mapping, or with options that are refused.  Everything else ends the program
without one. -/

namespace HeaderReflection

/-- The text of a file, its line ends reduced to line feeds, unless its bytes are not UTF-8. -/
def FileContent.text? (c : FileContent) : Option String :=
  (String.fromUTF8? ⟨c.toArray⟩).map fun s => String.ofList (Text.universalNewlines s.toList)

/-! ### Faults -/

/-- Why settings cannot be loaded. -/
inductive ConfigurationFault where
  | missing (path : SourcePath)
  | notFile (path : SourcePath)
  | notText (path : SourcePath)
  | noDocument (path : SourcePath) (fault : DocumentFault)
  | notMapping (path : SourcePath)
  | refused (path : SourcePath) (report : String)
  | raised (path : SourcePath)
  deriving DecidableEq, Repr

/-- The fault that is reported. -/
def ConfigurationFault.fault? : ConfigurationFault → Option Fault
  | .missing p => some ⟨.configNotFound p.text, some p, 0, 1, []⟩
  | .noDocument p (.refused reason) => some ⟨.configUnreadable p.text reason, some p, 0, 1, []⟩
  | .notMapping p => some ⟨.configUnreadable p.text "top level must be a mapping", some p, 0, 1, []⟩
  | .refused p report => some ⟨.configUnreadable p.text report, some p, 0, 1, []⟩
  | .notFile _ | .notText _ | .noDocument _ .raised | .raised _ => none

/-! ### Loading -/

namespace Settings

/-- The configuration file that is looked for in the current directory. -/
def defaultConfiguration : SourcePath := ⟨.relative, ["reflector.yaml"]⟩

/-- The mapping that a document is; one that says nothing is empty. -/
def mapping? : Value → Option Bag
  | .object m => some m
  | .null | .bool false | .str "" | .array [] => some []
  | .int n => if n = 0 then some [] else none
  | .float x => if x.magnitude = 0 then some [] else none
  | _ => none

/-- The settings that the text of a configuration file chooses. -/
def ofConfiguration (e : Environment) (cwd path : SourcePath) (text : String) :
    Except ConfigurationFault Settings := do
  let document ← (e.document text).mapError (.noDocument path)
  let some m := mapping? document | throw (.notMapping path)
  match decode e.validation e.homes cwd m with
  | .error (.refused ps) => throw (.refused path (e.validation.report ps))
  | .error .raised => throw (.raised path)
  | .ok s =>
    let base := (cwd.resolve path).parent
    return { s with files := s.files.map fun p => base / p }

/-- Loads settings from a configuration file, or from the default one if there is one. -/
def load (e : Environment) (t : FileTree) (path : Option SourcePath) :
    Except ConfigurationFault Settings :=
  let file := path.getD (t.cwd / defaultConfiguration)
  match t.read? file with
  | none =>
    if t.isDirectory file then .error (.notFile file)
    else if path.isSome then .error (.missing file)
    else .ok {}
  | some c =>
    match c.text? with
    | none => .error (.notText file)
    | some text => ofConfiguration e t.cwd file text

end Settings

end HeaderReflection
