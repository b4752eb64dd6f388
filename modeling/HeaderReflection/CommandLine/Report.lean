import HeaderReflection.Session
import HeaderReflection.Value.Json

/-! # Reports

What a command leaves behind: whether it did what it was asked for, what it shows, the messages to the user,
and the file that it writes.

Messages go to the console without markup, so it never refuses them.  What is shown goes through markup, and a
command whose console refuses something fails there, with everything before that done (`Report.showing`).

The tables of reports list scanned headers and known attributes.  Headers without declarations have no row. -/

namespace HeaderReflection

/-! ### Reports -/

/-- How a command ends. -/
inductive ExitStatus where
  | success
  | failure
  deriving DecidableEq, Repr

/-- The number that stands for an ending. -/
def ExitStatus.code : ExitStatus → Nat
  | .success => 0
  | .failure => 1

/-- What a command leaves behind. -/
structure Report where
  status : ExitStatus := .success
  printed : List Printed := []
  messages : List String := []
  /-- The file that the command writes, and its text. -/
  written : Option (SourcePath × String) := none
  deriving DecidableEq, Repr

namespace Report

/-- The end of a command without anything shown. -/
def failed (messages : List String) : Report := { status := .failure, messages := messages }

/-- The report of a command that goes on to show something; it fails where the console refuses to. -/
def showing (r : Report) (k : Console) (ps : List Printed) : Report :=
  { r with
    status := if k.accepts ps then r.status else .failure
    printed := r.printed ++ k.shown ps }

/-- The files after a command. -/
def filesAfter (r : Report) (t : FileTree) : FileTree :=
  match r.written with
  | none => t
  | some (p, text) => t.write p text.toUTF8.toList

end Report

namespace Header

/-- The row of a header in the table of scanned headers. -/
def row (h : Header) : List String :=
  let count (f : Class → Nat) : String := toString (h.classes.foldl (fun n c => n + f c) 0)
  [h.path.text, toString h.classes.length, toString h.enums.length, count (·.fields.length),
    count (·.methods.length), count (·.artificialMethods.length)]

end Header

/-- The table of the scanned headers with declarations. -/
def Program.table (p : Program) : Table where
  title := "Reflected files"
  heading := ["File", "Classes", "Enums", "Fields", "Methods", "Artificial"]
  rows := (p.headers.filter (!·.isEmpty)).map (·.row)

namespace RunResult

/-- The line that counts files, errors and warnings. -/
def countLine (r : RunResult) : String :=
  "Scanned " ++ toString r.files.length ++ " file(s): " ++ toString r.errors.length ++
    " error(s), " ++ toString r.warnings.length ++ " warning(s)"

/-- What a run shows. -/
def summary (r : RunResult) (p : Program) : List Printed := [.table p.table, .line r.countLine]

end RunResult

/-! ### Tables of attributes -/

namespace Attribute

/-- The column of default values. -/
def defaultText (a : Attribute) : String :=
  match a.default with
  | .null => ""
  | .bool true => "True"
  | .bool false => "False"
  | v => v.render 0

/-- The column of names; attributes that only native ones set are marked. -/
def label (a : Attribute) : String :=
  String.intercalate " / " a.names ++ if a.userSettable then "" else " [dim](native only)[/dim]"

/-- The kinds that an attribute applies to, in the order of their labels. -/
def targetLabels (a : Attribute) : List String :=
  (a.targets.map DeclarationKind.label).mergeSort fun x y => x ≤ y

/-- The row of an attribute in the table of its category. -/
def row (a : Attribute) : List String :=
  [a.label, String.intercalate ", " a.targetLabels, a.defaultText, a.description]

/-- The table of a category. -/
def table (category : String) (l : List Attribute) : Table where
  title := category
  heading := ["Name", "Applies To", "Default", "Description"]
  rows := l.map row

end Attribute

end HeaderReflection
