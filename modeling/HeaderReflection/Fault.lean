import HeaderReflection.Declaration.Kind
import HeaderReflection.SourcePath
import HeaderReflection.Text.Numeral

/-! # Faults and diagnostics

Everything that can be wrong with a header or with a whole program is a `Cause`, whose wording is
`Cause.message` alone.  A `Fault` is a cause with a place, which the first reader to know it fills in
(`Fault.placedAt`), and with notes about other places.  A `Diagnostic` is what a user sees, one line each:

    path(line,column): error: message

One cause stands apart: a number that is too long for a conversion (`Cause.overlong`).  It is no fault
that a reader knows of, so it passes through all of them as it is, without a place, and ends whatever
was going on (`Cause.overlong?`). -/

namespace HeaderReflection

/-- What a fault is about. -/
inductive Category where
  | general
  | lexical
  | attribute
  | crossReference
  | config
  deriving DecidableEq, Repr

/-- The name of a category; a general fault counts as lexical. -/
def Category.label : Category → String
  | .general | .lexical => "lexical"
  | .attribute => "attribute"
  | .crossReference => "cross_reference"
  | .config => "config"

/-- Texts whose brackets must match. -/
inductive Bracketing where
  | typeText
  | expression
  deriving DecidableEq, Repr

/-- The name of such a text. -/
def Bracketing.label : Bracketing → String
  | .typeText => "type"
  | .expression => "expression"

/-- What an attribute list lacks where reading it stopped. -/
inductive ListFault where
  | noCloser (closer : Char)
  | noComma
  | noBracket
  | noCommaOrBracket
  | noName
  | noValue
  | openString
  /-- The list is in order, but a word in it has no value. -/
  | overlong (e : Text.Overlong)
  deriving DecidableEq, Repr

/-- The wording of a fault in an attribute list. -/
def ListFault.message : ListFault → String
  | .noCloser c => "expected `" ++ c.toString ++ "`"
  | .noComma => "expected `,`"
  | .noBracket => "expected `]`"
  | .noCommaOrBracket => "expected `,` or `]`"
  | .noName => "expected attribute name"
  | .noValue => "expected value"
  | .openString => "unterminated string"
  | .overlong e => e.message

/-- Why an attribute does not accept a value. -/
inductive ValueFault where
  | notString
  | notBool
  | notStringOrBool
  | notObject
  | empty
  | notIdentifier (value : String)
  | notNamespace (part : String)
  | notReflectedEnum (value : String)
  | misplaced (name : String) (targets : List DeclarationKind)
  deriving DecidableEq, Repr

/-- The wording of a fault in a value. -/
def ValueFault.message : ValueFault → String
  | .notString => "must be a string"
  | .notBool => "must be a boolean"
  | .notStringOrBool => "must be a string or boolean"
  | .notObject => "must be an object"
  | .empty => "cannot be empty"
  | .notIdentifier v => "must be a valid C++ identifier ('" ++ v ++ "' is not)"
  | .notNamespace p => "must be a valid namespace name ('" ++ p ++ "' unexpected)"
  | .notReflectedEnum v => "must name a reflected enum; '" ++ v ++ "' is not a reflected enum"
  | .misplaced n ks =>
    "`" ++ n ++ "` attribute only applies on the following entities: " ++
      String.intercalate ", " (ks.map DeclarationKind.label)

/-- What is wrong. -/
inductive Cause where
  -- scanning
  | expected (what found : String)
  | openLiteral
  | strayBracket (inside : Bracketing) (bracket : Char)
  | openBracket (inside : Bracketing)
  | missingCloser (closer : Char)
  | attributeList (fault : ListFault) (rest : String)
  -- markers
  | enumeratorOutsideEnum (marker : String)
  | noDeclaration
  | outsideClass (marker : String)
  | beforeBody (marker body className : String)
  | bodyMissing (className body : String)
  | bodyRepeated (className body : String) (line : Nat)
  -- declarations
  | baseBrackets (inner : Cause)
  | baseInvalid (piece : String)
  | baseMissing
  | baseRequired (className : String)
  | fieldWithoutType (name : String)
  | destructor
  | operatorOverload
  | methodWithoutParameters (name : String)
  | accessorRepeated (role property : String) (line : Nat)
  | setterWithoutParameter (property : String)
  | enumeratorOnOpeningLine (enumName : String)
  | enumOpen (enumName : String)
  | enumEnd (enumName found : String)
  | enumeratorValue (name : String)
  | enumeratorTrailing
  -- attributes
  | unsettable (names : List String)
  | invalidAttribute (name : String) (fault : ValueFault)
  -- derivation
  | flagKindsExclusive
  | enumNotReflected (name : String)
  | flagOutOfRange (enumerator enumType : String) (value : Int)
  | synthesizedTwice (role className existing : String)
  | uniqueNameTaken
  | overloadWithDefaults (name : String)
  | abstractInConcrete (method classType : String)
  -- files and configuration
  | noSuchPath
  | configNotFound (path : String)
  | configUnreadable (path reason : String)
  /-- A conversion refuses a number or the text of one. -/
  | overlong (e : Text.Overlong)
  /-- A fault stated from outside in its own words. -/
  | stated (category : Category) (text : String)
  deriving DecidableEq, Repr

namespace Cause

/-- What a cause is about. -/
def category : Cause → Category
  | .baseRequired _ | .accessorRepeated _ _ _ | .flagKindsExclusive | .enumNotReflected _
  | .flagOutOfRange _ _ _ | .synthesizedTwice _ _ _ | .uniqueNameTaken | .overloadWithDefaults _
  | .abstractInConcrete _ _ => .crossReference
  | .setterWithoutParameter _ | .unsettable _ | .invalidAttribute _ _ => .attribute
  | .configNotFound _ | .configUnreadable _ _ => .config
  | .overlong _ => .general
  | .stated c _ => c
  | _ => .lexical

/-- The first forty characters that were found, or that nothing was left. -/
def foundText (found : String) : String :=
  match Text.trim found.toList with
  | [] => "end of line"
  | s => "`" ++ String.ofList (s.take 40) ++ "`"

/-- The wording of a cause. -/
def message : Cause → String
  | .expected what found => "Expected `" ++ what ++ "`, found " ++ foundText found
  | .openLiteral => "Unterminated string literal"
  | .strayBracket t c => "Unbalanced brackets in " ++ t.label ++ ": unexpected `" ++ c.toString ++ "`"
  | .openBracket t => "Unbalanced brackets in " ++ t.label
  | .missingCloser c => "Unbalanced brackets: missing `" ++ c.toString ++ "`"
  | .attributeList f rest =>
    "Invalid attribute list: " ++ f.message ++ " at `" ++ String.ofList (rest.toList.take 20) ++ "`"
  | .enumeratorOutsideEnum m => m ++ "() is only allowed inside a reflected enum"
  | .noDeclaration => "Expected a declaration after the marker, found end of file"
  | .outsideClass m => m ++ "() found outside of a reflected class"
  | .beforeBody m b c => m ++ "() found before the " ++ b ++ "() marker of class '" ++ c ++ "'"
  | .bodyMissing c b => "Class '" ++ c ++ "' is missing its " ++ b ++ "() marker"
  | .bodyRepeated c b n =>
    "Class '" ++ c ++ "' already has a " ++ b ++ "() marker at line " ++ toString n
  | .baseBrackets inner => "Mismatched class parents: " ++ inner.message
  | .baseInvalid p => "Invalid base class specifier `" ++ p ++ "`"
  | .baseMissing => "Expected a base class after `:`"
  | .baseRequired c =>
    "Class '" ++ c ++ "' must derive from a reflectable class " ++
      "(or be declared as a struct, or marked Abstract or Singleton)"
  | .fieldWithoutType n => "Expected a type before field name `" ++ n ++ "`"
  | .destructor => "Reflecting destructors is not supported"
  | .operatorOverload => "Reflecting operator overloads is not supported"
  | .methodWithoutParameters n => "Misformed method declaration: expected `(` after `" ++ n ++ "`"
  | .accessorRepeated role p n =>
    role ++ " for property '" ++ p ++ "' already declared at line " ++ toString n
  | .setterWithoutParameter p => "Setter for property '" ++ p ++ "' must have at least 1 argument"
  | .enumeratorOnOpeningLine e =>
    "Enumerators of enum '" ++ e ++ "' must start on the line after `\x7b`"
  | .enumOpen e => "Unterminated enum '" ++ e ++ "': expected `\x7d;`"
  | .enumEnd e t => "Expected `\x7d;` to close enum '" ++ e ++ "', found `" ++ t ++ "`"
  | .enumeratorValue n => "Enumerator '" ++ n ++ "' must have an integer literal value"
  | .enumeratorTrailing => "Enumerators must be the only thing on their line"
  | .unsettable ns =>
    "The following attributes are not user-settable: " ++
      String.intercalate ", " (ns.map fun n => "'" ++ n ++ "'")
  | .invalidAttribute n f => "Invalid attribute '" ++ n ++ "': " ++ f.message
  | .flagKindsExclusive => "Only one of 'FlagGetters' and 'Flags' can be declared"
  | .enumNotReflected n => "Enum '" ++ n ++ "' not reflected"
  | .flagOutOfRange e t v =>
    "Enumerator '" ++ e ++ "' of flag enum '" ++ t ++ "' has value " ++ toString v ++
      "; flag values must be bit indices between 0 and 63"
  | .synthesizedTwice role c m =>
    "Artificial method '" ++ role ++ "' already exists in class " ++ c ++ ": " ++ m
  | .uniqueNameTaken => "Method with unique name not unique"
  | .overloadWithDefaults n =>
    "Method '" ++ n ++ "' is overloaded and has default arguments; overloaded methods cannot " ++
      "have default arguments (give each overload a UniqueName)"
  | .abstractInConcrete m c => "Abstract method '" ++ m ++ "' in non-abstract class '" ++ c ++ "'"
  | .noSuchPath => "File or directory does not exist"
  | .configNotFound p => "Config file not found: " ++ p
  | .configUnreadable p r => "Failed to parse config at " ++ p ++ ": " ++ r
  | .overlong e => e.message
  | .stated _ t => t

/-- What a conversion refused, if that is the cause. -/
def overlong? : Cause → Option Text.Overlong
  | .overlong e => some e
  | _ => none

end Cause

/-- The place of a fault in front of its text: nothing known, a file, or a position in it. -/
def formatPlace (path : Option SourcePath) (line column : Int) : String :=
  match path with
  | none => "<unknown>"
  | some p =>
    if line ≤ 0 then p.text
    else p.text ++ "(" ++ toString line ++ "," ++ toString column ++ ")"

/-- A cause at a place, which may not be known yet. -/
structure Fault where
  cause : Cause
  path : Option SourcePath := none
  line : Int := 0
  column : Int := 1
  notes : List String := []
  deriving DecidableEq, Repr

namespace Fault

/-- Fills in the path if it is not known, and the position if it is not known; a number that is too
long stays without a place. -/
def placedAt (f : Fault) (path : Option SourcePath) (line : Int) (column : Int := 1) : Fault :=
  let g := { f with path := f.path <|> path }
  if f.cause.overlong?.isSome then f
  else if f.line ≤ 0 then { g with line := line, column := column }
  else g

@[simp] theorem cause_placedAt (f : Fault) (path : Option SourcePath) (line column : Int) :
    (f.placedAt path line column).cause = f.cause := by
  unfold placedAt
  split
  · rfl
  · split
    all_goals rfl

/-- The wording of a fault. -/
def message (f : Fault) : String := f.cause.message

/-- The wording with its notes, a line each. -/
def messageWithNotes (f : Fault) : String := String.intercalate "\n" (f.message :: f.notes)

/-- The line that a user sees, and a line for each note. -/
def format (f : Fault) : String :=
  formatPlace f.path f.line f.column ++ ": error: " ++ f.messageWithNotes

/-- The text of a fault: with its place if it has one. -/
def text (f : Fault) : String := if f.path.isSome then f.format else f.message

end Fault

instance : Coe Cause Fault := ⟨fun c => ⟨c, none, 0, 1, []⟩⟩

/-- How bad a diagnostic is. -/
inductive Severity where
  | error
  | warning
  deriving DecidableEq, Repr

/-- The name of a severity. -/
def Severity.label : Severity → String
  | .error => "error"
  | .warning => "warning"

/-- A reported error or warning. -/
structure Diagnostic where
  severity : Severity
  message : String
  path : Option SourcePath := none
  line : Int := 0
  column : Int := 1
  category : Option Category := none
  deriving DecidableEq, Repr

namespace Diagnostic

/-- The report of a fault, its notes included. -/
def ofFault (f : Fault) : Diagnostic :=
  ⟨.error, f.messageWithNotes, f.path, f.line, f.column, some f.cause.category⟩

/-- The line that a user sees. -/
def format (d : Diagnostic) : String :=
  formatPlace d.path d.line d.column ++ ": " ++ d.severity.label ++ ": " ++ d.message

end Diagnostic

/-- A computation that may end in a fault. -/
abbrev Checked := Except Fault

/-- A cause without a place ends a checked computation. -/
instance : MonadLift (Except Cause) Checked := ⟨fun x => x.mapError fun (c : Cause) => (c : Fault)⟩

/-- Fills in the place of a fault that does not know it. -/
def Checked.placedAt {α : Type} (x : Checked α) (path : SourcePath) (line : Int) : Checked α :=
  x.mapError fun f => f.placedAt (some path) line

end HeaderReflection
