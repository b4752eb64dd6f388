import HeaderReflection.SourcePath
import HeaderReflection.Text.Lowercase

/-! # Languages

Which reader a file belongs to is decided by its suffix, in letters of either case.  A reader that is
listed later wins a suffix from one before it, and a reader that stands alone takes every file. -/

namespace HeaderReflection

/-- The name of a reader and the suffixes of its files. -/
structure Language where
  name : String
  suffixes : List String := []
  deriving DecidableEq, Repr

/-- The headers that this library reads. -/
def Language.headers : Language := ⟨"cpp", [".h", ".hpp", ".hh", ".hxx"]⟩

namespace Language

/-- Whether a reader claims a suffix. -/
def claims (l : Language) (suffix : String) : Bool :=
  (l.suffixes.map Text.lowercase).contains (Text.lowercase suffix)

/-- The reader among those listed that a path belongs to. -/
def forPath? (ls : List Language) (p : SourcePath) : Option Language :=
  match ls.reverse.find? (·.claims p.suffix), ls with
  | some l, _ => some l
  | none, [l] => some l
  | none, _ => none

/-- The wording for a path that belongs to no reader. -/
def unclaimedMessage (p : SourcePath) : String :=
  "No parser registered for " ++ if p.suffix.isEmpty then p.name else p.suffix

end Language

end HeaderReflection
