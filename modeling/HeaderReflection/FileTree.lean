import HeaderReflection.SourcePath

/-! # File trees

The files of a file system without links, seen from a current directory.

* A file is found at the parts of its absolute path.
* A directory is what holds a file, a directory listed as such, the current directory, or a directory above
  one of these.
* Two dots in a path lead upwards from a directory that has to exist, so a path is walked part by part
  (`FileTree.walk`).

A file can be written where no directory stands, and no file stands in place of a directory above it; the
directories that it needs are made (`FileTree.write`). -/

namespace HeaderReflection

/-- The bytes of a file. -/
abbrev FileContent := List UInt8

/-- A file system. -/
structure FileTree where
  /-- The current directory, an absolute path. -/
  cwd : SourcePath
  /-- The files by the parts of their absolute paths. -/
  files : List (List String × FileContent) := []
  /-- Directories by the parts of their absolute paths, whether they hold files or not. -/
  directories : List (List String) := []
  deriving DecidableEq, Repr

/-! ### Looking up -/

namespace FileTree

/-- Whether the parts lead to a directory. -/
def hasDirectory (t : FileTree) (parts : List String) : Bool :=
  parts.isPrefixOf t.cwd.parts || t.directories.any (parts.isPrefixOf ·) ||
    t.files.any fun f => parts.isPrefixOf f.1 && parts.length < f.1.length

/-- The content of the file at the parts. -/
def content? (t : FileTree) (parts : List String) : Option FileContent := t.files.lookup parts

/-- The parts that a walk from a directory leads to, if every directory on the way exists. -/
def walk (t : FileTree) (directory : List String) : List String → Option (List String)
  | [] => some directory
  | p :: ps =>
    if t.hasDirectory directory then
      walk t (if p = ".." then directory.dropLast else directory ++ [p]) ps
    else none

/-- The parts of the absolute path that a path leads to. -/
def locate? (t : FileTree) (p : SourcePath) : Option (List String) :=
  t.walk (if p.isAbsolute then [] else t.cwd.parts) p.parts

/-- The content of the file that a path leads to. -/
def read? (t : FileTree) (p : SourcePath) : Option FileContent := (t.locate? p).bind t.content?

/-- Whether a path leads to a file. -/
def isFile (t : FileTree) (p : SourcePath) : Bool := (t.read? p).isSome

/-- Whether a path leads to a directory. -/
def isDirectory (t : FileTree) (p : SourcePath) : Bool :=
  ((t.locate? p).map t.hasDirectory).getD false

/-! ### Listing and writing -/

/-- The files in the directory that a path leads to, and with `deep` those in directories below it,
as paths that begin with the given one. -/
def filesIn (t : FileTree) (deep : Bool) (p : SourcePath) : List SourcePath :=
  match t.locate? p with
  | none => []
  | some directory =>
    t.files.filterMap fun f =>
      match dropParts directory f.1 with
      | some [name] => some { p with parts := p.parts ++ [name] }
      | some (q :: qs) => if deep then some { p with parts := p.parts ++ q :: qs } else none
      | _ => none
where
  /-- The rest of a list behind a beginning. -/
  dropParts : List String → List String → Option (List String)
    | [], l => some l
    | p :: ps, q :: qs => if p = q then dropParts ps qs else none
    | _ :: _, [] => none

/-- Whether a file can be written where a path leads: there is no directory, and no file is in the
way. -/
def canWrite (t : FileTree) (p : SourcePath) : Bool :=
  let parts := (t.cwd.resolve p).parts
  !t.hasDirectory parts &&
    !t.files.any fun f => f.1.isPrefixOf parts && f.1.length < parts.length

/-- The tree with a file written, and with the directories that it needs. -/
def write (t : FileTree) (p : SourcePath) (c : FileContent) : FileTree :=
  let parts := (t.cwd.resolve p).parts
  { t with files := t.files.filter (·.1 != parts) ++ [(parts, c)] }

end FileTree

end HeaderReflection
