import HeaderReflection.SourcePath

/-! # Commands

What a user asks for: to scan headers, to scan them and write their database, or to list the known attributes.

Choices that are not made are left to the settings, and those that are made win over a configuration file.
How the words of a command line become a command is up to a library, so a command is where the program begins. -/

namespace HeaderReflection

/-- What to scan and how. -/
structure ScanChoices where
  /-- The files and directories to scan; if there are none, those of the settings. -/
  paths : List SourcePath := []
  config : Option SourcePath := none
  recursive : Option Bool := none
  quiet : Option Bool := none
  verbose : Option Bool := none
  deriving DecidableEq, Repr

/-- What a user asks for. -/
inductive Command where
  | scan (choices : ScanChoices)
  | dump (choices : ScanChoices) (output : Option SourcePath)
  /-- Lists the attributes of one category or of all. -/
  | attributes (category : Option String)
  deriving DecidableEq, Repr

end HeaderReflection
