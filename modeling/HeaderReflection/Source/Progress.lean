import HeaderReflection.Source.ClassDeclaration
import HeaderReflection.Source.EnumDeclaration
import HeaderReflection.Source.FieldDeclaration
import HeaderReflection.Source.MethodDeclaration
import HeaderReflection.Text.Lines

/-! # Reading a header line by line

A header is read by a machine whose input is the lines of the text (`Reader.readLine`).

* Between declarations a line is a marker, an access label, a documentation comment, or of no interest.
* The declaration of a marker stands on the same line or on the next one; a body marker has none.
* The body of an enum goes on until its closing brace, and every line in it is blank, a comment, a list for
  the next enumerator, or an enumerator.

Members belong to the last class, whose body marker has to stand in front of them; no other class begins
before it.

Reading the lines of two texts one after the other is reading both (`Reader.runLines_append`).  A text ends
well where nothing is awaited (`Reader.finish`). -/

namespace HeaderReflection

open Text

/-- What the next line is read as. -/
inductive LineMode where
  | between
  /-- The declaration of a marker on the line before. -/
  | declaration (kind : MarkerKind) (site : MarkerSite)
  /-- The opening brace of an enum. -/
  | opening (head : EnumHead) (site : MarkerSite)
  | enumerators (body : EnumBody)
  deriving DecidableEq, Repr

/-- What has been read of a header. -/
structure Progress where
  path : SourcePath
  /-- The classes, the last one first. -/
  classes : List Class := []
  /-- The enums, the last one first. -/
  enums : List Enumeration := []
  /-- The visibility of the members that follow. -/
  access : Access := .unspecified
  /-- The comments directly above. -/
  comments : List String := []
  mode : LineMode := .between
  deriving DecidableEq, Repr

/-! ### Classes and enums -/

namespace Reader

/-- The last class must have its body marker before anything else follows. -/
def closeClass (r : Reader) (p : Progress) : Checked Unit :=
  match p.classes with
  | c :: _ =>
    if c.bodyLine = 0 then
      .error ⟨.bodyMissing c.name (r.markerName .body), some p.path, c.line, 1, []⟩
    else .ok ()
  | [] => .ok ()

/-- The class that a member marker belongs to, and the classes before it. -/
def openClass (r : Reader) (p : Progress) (kind : MarkerKind) :
    Except Cause (Class × List Class) :=
  match p.classes with
  | [] => .error (.outsideClass (r.markerName kind))
  | c :: before =>
    if c.bodyLine = 0 then
      .error (.beforeBody (r.markerName kind) (r.markerName .body) c.name)
    else .ok (c, before)

/-- The last class gets its body marker. -/
def beginBody (r : Reader) (p : Progress) (line : Nat) : Except Cause Progress :=
  match p.classes with
  | [] => .error (.outsideClass (r.markerName .body))
  | c :: before =>
    if c.bodyLine ≠ 0 then .error (.bodyRepeated c.name (r.markerName .body) c.bodyLine)
    else .ok { p with classes := { c with bodyLine := line } :: before, access := .everyone }

/-- An enum behind its opening brace, where nothing else may stand on that line. -/
def beginEnum (r : Reader) (p : Progress) (site : MarkerSite) (head : EnumHead)
    (rest : List Char) : Checked Progress := do
  unless (trimComments rest).isEmpty do
    throw (Cause.enumeratorOnOpeningLine head.name : Fault)
  let e ← r.enumOf site head
  return { p with mode := .enumerators { declared := e } }

/-! ### Declarations behind markers -/

/-- Reads the declaration of a marker. -/
def declare (r : Reader) (p : Progress) (kind : MarkerKind) (site : MarkerSite)
    (text : List Char) : Checked Progress := do
  let p := { p with mode := .between }
  match kind with
  | .classType =>
    r.closeClass p
    let c ← r.classOf site text
    return { p with classes := c :: p.classes, access := initialAccess c }
  | .body => r.beginBody p site.line
  | .field =>
    let (c, before) ← r.openClass p .field
    let f ← r.fieldOf site c p.access text
    return { p with classes := { c with fields := c.fields ++ [f] } :: before }
  | .method =>
    let (c, before) ← r.openClass p .method
    let m ← r.methodOf site c p.access text
    let c ← r.claimProperties c m
    return { p with classes := { c with methods := c.methods ++ [m] } :: before }
  | .enumType =>
    let (head, rest) ← EnumHead.read.split text
    if head.opened then r.beginEnum p site head rest
    else return { p with mode := .opening head site }
  | .enumerator => throw (Cause.enumeratorOutsideEnum (r.markerName .enumerator) : Fault)

/-- The declaration behind a marker on the same line, empty if it stands on the next one. -/
def declarationText (rest : List Char) : List Char :=
  match trimLeft rest with
  | ';' :: s => trimComments s
  | s => trimComments s

/-- Reads a marker and, if it stands on the same line, its declaration.  A body marker has none. -/
def markerLine (r : Reader) (p : Progress) (n : Nat) (name : String) (kind : MarkerKind)
    (behind : List Char) : Checked Progress := do
  let (attributes, rest) ← Lexer.attributeList.split behind
  let site : MarkerSite := ⟨p.path, n, p.comments, attributes⟩
  let p := { p with comments := [] }
  if name = r.markerName .body then r.declare p kind site []
  else
    match declarationText rest with
    | [] => return { p with mode := .declaration kind site }
    | text => r.declare p kind site text

/-- Reads a line without a marker. -/
def plainLine (r : Reader) (p : Progress) (line : List Char) : Except Cause Progress :=
  if ((r.markerName .enumerator).toList ++ ['(']).isPrefixOf line then
    .error (.enumeratorOutsideEnum (r.markerName .enumerator))
  else
    match Access.ofLabelLine? (String.ofList line), line with
    | some a, _ => .ok { p with access := a, comments := [] }
    | none, '/' :: '/' :: '/' :: s =>
      .ok { p with comments := p.comments ++ [String.ofList (trim s)] }
    | none, _ => .ok { p with comments := [] }

/-! ### Bodies of enums -/

/-- A closing brace with a semicolon, and nothing but comments behind them. -/
def isEnumEnd (line : List Char) : Bool :=
  match line with
  | '\x7d' :: s =>
    match trimLeft s with
    | ';' :: s => (trimComments s).isEmpty
    | _ => false
  | _ => false

/-- Reads a line that declares an enumerator. -/
def enumeratorLine (r : Reader) (p : Progress) (body : EnumBody) (n : Nat) (line : List Char) :
    Checked Progress := do
  let body ← r.addEnumerator body n line
  return { p with mode := .enumerators body }

/-- Reads a line in the body of an enum. -/
def enumLine (r : Reader) (p : Progress) (body : EnumBody) (n : Nat) (line : List Char) :
    Checked Progress := do
  match line with
  | '\x7d' :: _ =>
    if isEnumEnd line then
      return { p with enums := body.declared :: p.enums, mode := .between }
    else throw (Cause.enumEnd body.declared.name (String.ofList line) : Fault)
  | [] => return p
  | '/' :: '/' :: '/' :: s =>
    return { p with
      mode := .enumerators { body with comments := body.comments ++ [String.ofList (trim s)] } }
  | '/' :: '/' :: _ => return p
  | _ =>
    let marker := (r.markerName .enumerator).toList
    if (marker ++ ['(']).isPrefixOf line then
      let (pending, rest) ← Lexer.attributeList.split (line.drop marker.length)
      let body := { body with pending }
      match trim rest with
      | [] | '/' :: '/' :: _ => return { p with mode := .enumerators body }
      | text => r.enumeratorLine p body n text
    else r.enumeratorLine p body n line

/-! ### Lines and texts -/

/-- Reads one line, without the blanks around it. -/
def readLine (r : Reader) (p : Progress) (n : Nat) (line : List Char) : Checked Progress :=
  match p.mode with
  | .between =>
    match r.markers.find? line with
    | some (name, kind, behind) => r.markerLine p n name kind behind
    | none => (r.plainLine p line : Except Cause Progress)
  | .declaration kind site => r.declare p kind site line
  | .opening head site => do
    let (_, rest) ← (Lexer.expect ['\x7b']).split line
    r.beginEnum p site head rest
  | .enumerators body => r.enumLine p body n line

/-- Reads lines, the first of which has the number `n`. -/
def runLines (r : Reader) (p : Progress) (n : Nat) : List String → Checked Progress
  | [] => .ok p
  | l :: ls => do
    let q ← (r.readLine p n (trim l.toList)).placedAt p.path n
    r.runLines q (n + 1) ls

/-- What a text that ends here declares. -/
def finish (r : Reader) (p : Progress) : Checked Header :=
  match p.mode with
  | .declaration _ _ => .error (Cause.noDeclaration : Fault)
  | .opening _ _ => .error (Cause.expected "\x7b" "" : Fault)
  | .enumerators body => .error (Cause.enumOpen body.declared.name : Fault)
  | .between => do
    r.closeClass p
    return ⟨p.path, p.classes.reverse, p.enums.reverse⟩

/-- The header with the given text.  A fault in the text has the path and a line of it. -/
def read (r : Reader) (path : SourcePath) (text : String) : Checked Header := do
  Checked.placedAt (r.checkDefaults : Except Cause Unit) path 0
  let lines := Text.lines text
  let p ← r.runLines { path } 1 lines
  (r.finish p).placedAt path lines.length

/-- Reading lines in two portions is reading all of them. -/
theorem runLines_append (r : Reader) (p : Progress) (n : Nat) (l₁ l₂ : List String) :
    r.runLines p n (l₁ ++ l₂) =
      (r.runLines p n l₁).bind fun q => r.runLines q (n + l₁.length) l₂ := by
  induction l₁ generalizing p n with
  | nil => rfl
  | cons l ls ih =>
      simp only [List.cons_append, runLines, bind, Except.bind]
      cases (r.readLine p n (trim l.toList)).placedAt p.path n with
      | error e => rfl
      | ok q =>
          simp only [ih, List.length_cons]
          rw [Nat.add_assoc, Nat.add_comm 1]
          rfl

end Reader

end HeaderReflection
