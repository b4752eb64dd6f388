/-! # Source paths

Paths in normal form: what anchors them, and their parts, none of them empty or a single dot.  Two
dots are a part like any other until a path is resolved against a directory.

* `ofString` and `text` are inverse on normal forms;
* `resolve` gives an absolute path without two dots (`resolve_root`, `not_mem_parts_resolve`). -/

namespace HeaderReflection

/-! ### Paths and their texts -/

/-- What a path starts from. -/
inductive PathRoot where
  | relative
  | absolute
  | doubled
  deriving DecidableEq, Repr

/-- The slashes in front of the parts. -/
def PathRoot.text : PathRoot → String
  | .relative => ""
  | .absolute => "/"
  | .doubled => "//"

/-- A path in normal form. -/
structure SourcePath where
  root : PathRoot := .relative
  parts : List String := []
  deriving DecidableEq, Repr

namespace SourcePath

/-- The parts of a text between slashes, without empty ones and single dots. -/
def partsOf (s : List Char) : List String :=
  ((s.splitOn '/').map String.ofList).filter fun p => p != "" && p != "."

/-- The path written as `s`.  Exactly two slashes in front are kept, more of them count as one. -/
def ofString (s : String) : SourcePath :=
  let parts := partsOf s.toList
  match s.toList with
  | '/' :: '/' :: '/' :: _ => ⟨.absolute, parts⟩
  | '/' :: '/' :: _ => ⟨.doubled, parts⟩
  | '/' :: _ => ⟨.absolute, parts⟩
  | _ => ⟨.relative, parts⟩

/-- The written form; the empty relative path is a dot. -/
def text (p : SourcePath) : String :=
  if p.root = .relative ∧ p.parts = [] then "."
  else p.root.text ++ String.intercalate "/" p.parts

/-- The last part, empty if there is none. -/
def name (p : SourcePath) : String := p.parts.getLastD ""

/-- The last dot of the name and what follows it, unless the dot is its first or last character. -/
def suffix (p : SourcePath) : String :=
  let r := p.name.toList.reverse
  let extension := r.takeWhile (· != '.')
  match r.drop extension.length with
  | _ :: _ :: _ => if extension.isEmpty then "" else String.ofList ('.' :: extension.reverse)
  | _ => ""

/-- A path that does not depend on the current directory. -/
def isAbsolute (p : SourcePath) : Bool := p.root != .relative

/-! ### Paths seen from directories -/

/-- The path `q` seen from the directory `p`. -/
def join (p q : SourcePath) : SourcePath :=
  if q.isAbsolute then q else { p with parts := p.parts ++ q.parts }

instance : Div SourcePath := ⟨join⟩

/-- The directory that holds a path. -/
def parent (p : SourcePath) : SourcePath := { p with parts := p.parts.dropLast }

/-- Cancels two dots against the part before them; above the top they vanish.  The parts already
settled are listed last part first. -/
def settle (settled : List String) : List String → List String
  | [] => settled.reverse
  | p :: ps => if p = ".." then settle settled.tail ps else settle (p :: settled) ps

/-- The absolute path without two dots, as seen from the directory `cwd`. -/
def resolve (cwd p : SourcePath) : SourcePath := ⟨.absolute, settle [] (cwd / p).parts⟩

/-- Ordering of paths by their parts; a path comes before itself. -/
def before (p q : SourcePath) : Bool := !q.parts.lex p.parts fun a b => a < b

/-! ### Resolved paths -/

theorem resolve_root (cwd p : SourcePath) : (resolve cwd p).root = .absolute := rfl

theorem not_mem_settle {settled : List String} (h : ".." ∉ settled) (ps : List String) :
    ".." ∉ settle settled ps := by
  induction ps generalizing settled with
  | nil => simpa [settle] using h
  | cons p ps ih =>
      by_cases hp : p = ".."
      · simpa [settle, hp] using ih (fun hm => h (List.mem_of_mem_tail hm))
      · simp only [settle, hp, if_false]
        exact ih (by simp [Ne.symm hp, h])

theorem not_mem_parts_resolve (cwd p : SourcePath) : ".." ∉ (resolve cwd p).parts :=
  not_mem_settle (by simp) _

end SourcePath

end HeaderReflection
