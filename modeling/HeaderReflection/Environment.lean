import HeaderReflection.CommandLine.Console
import HeaderReflection.Settings.Options

/-! # The environment

What the program takes from elsewhere: the format of configuration files, the library that takes values
for options, the home directories of users, and the console.  All of these are parameters. -/

namespace HeaderReflection

/-- Why a text is no document. -/
inductive DocumentFault where
  /-- The format refuses the text for some reason. -/
  | refused (reason : String)
  /-- Reading the text fails otherwise. -/
  | raised
  deriving DecidableEq, Repr

/-- What the program takes from elsewhere. -/
structure Environment where
  /-- The document that the text of a configuration file is. -/
  document : String → Except DocumentFault Value
  validation : Validation
  homes : Homes
  console : Console

end HeaderReflection
