import HeaderReflection.Settings.Basic

/-! # Options

The options by which settings are chosen: each has a name, a type, and a place in the settings.  How a
value is taken for a type is up to a library of validation, which is a parameter here (`Validation`); so
is what it says about the values that it does not take.

Some options are looked at by the program itself, in front of the library or behind it: a path may stand
for the home directory of a user, files may be given one by one or in a list, and there has to be a suffix
of files to scan.  What the library and these checks refuse is collected over all options, in their order;
but a value that is no path at all, or a user without a home, ends everything (`OptionFailure.raised`).
Names that belong to no option are ignored. -/

namespace HeaderReflection

/-! ### Values and their types -/

/-- A value that an option does not accept. -/
structure OptionProblem where
  /-- The name of the option, with a position or a name inside it. -/
  name : String
  reason : String
  deriving DecidableEq, Repr

/-- Takes values for a type; the name is that of the option, for the problems with it. -/
abbrev Coercion (α : Type) := String → Value → Except (List OptionProblem) α

/-- A library of validation. -/
structure Validation where
  bool : Coercion Bool
  text : Coercion String
  integer : Coercion Int
  texts : Coercion (List String)
  bag : Coercion Bag
  /-- The members of a section of options. -/
  members : Coercion Bag
  /-- The problem with a value of which a check of the program says something. -/
  checked : String → String → OptionProblem
  /-- The report of some problems. -/
  report : List OptionProblem → String

/-- Why a value is not chosen. -/
inductive OptionFailure where
  | refused (problems : List OptionProblem)
  /-- The value fails a check that says nothing to the library. -/
  | raised
  deriving DecidableEq, Repr

/-- Home directories by the names of their users; that of the current one has no name. -/
abbrev Homes := String → Option SourcePath

namespace SourcePath

/-- The path with the home directory in place of a tilde and the name of a user. -/
def expanded? (homes : Homes) (p : SourcePath) : Option SourcePath :=
  match p.isAbsolute, p.parts with
  | false, part :: parts =>
    match part.toList with
    | '~' :: user => (homes (String.ofList user)).map (· / ⟨.relative, parts⟩)
    | _ => some p
  | _, _ => some p

end SourcePath

namespace Value

/-- The path that a value stands for. -/
def path? (homes : Homes) (v : Value) : Option SourcePath :=
  v.string?.bind fun s => (SourcePath.ofString s).expanded? homes

/-- The values that a value lists: a text lists itself, and what counts as nothing lists nothing. -/
def items? : Value → Option (List Value)
  | .str s => some [.str s]
  | .array vs => some vs
  | .object m => some (m.map fun p => .str p.1)
  | .null | .bool false => some []
  | .int n => if n = 0 then some [] else none
  | .float x => if x.magnitude = 0 then some [] else none
  | .bool true => none

end Value

/-! ### Options -/

/-- An option: its name, and how its value changes settings as seen from a current directory. -/
structure SettingsOption where
  name : String
  assign : Validation → Homes → SourcePath → Value → Settings → Except OptionFailure Settings

namespace SettingsOption

/-- The option whose value the library takes and `keep` puts into the settings. -/
def taken {α : Type} (name : String) (coercion : Validation → Coercion α)
    (keep : α → Settings → Settings) : SettingsOption where
  name := name
  assign v _ _ x s := ((coercion v name x).map (keep · s)).mapError .refused

/-- A text or nothing. -/
def optionalText (v : Validation) : Coercion (Option String)
  | _, .null => .ok none
  | name, x => (v.text name x).map some

/-- An integer or nothing. -/
def optionalInteger (v : Validation) : Coercion (Option Int)
  | _, .null => .ok none
  | name, x => (v.integer name x).map some

/-- The files and directories to scan. -/
def files : SettingsOption where
  name := "files"
  assign _ homes _ x s :=
    match x.items?.bind (·.mapM (·.path? homes)) with
    | some ps => .ok { s with files := ps }
    | none => .error .raised

/-- A suffix with its dot. -/
def dotted (s : String) : String := if s.toList.head? = some '.' then s else "." ++ s

/-- The suffixes to scan, which may not be none. -/
def extensions : SettingsOption where
  name := "extensions_to_scan"
  assign v _ _ x s :=
    match v.texts "extensions_to_scan" x with
    | .error ps => .error (.refused ps)
    | .ok [] =>
      .error (.refused [v.checked "extensions_to_scan" "extensions_to_scan cannot be empty"])
    | .ok l => .ok { s with extensions := l.map dotted }

/-- The path of the database, kept as an absolute one.  No file has a null character in its path. -/
def databasePath : SettingsOption where
  name := "database_path"
  assign v homes cwd x s :=
    match x, x.path? homes with
    | .null, _ => .ok { s with databasePath := none }
    | _, none => .error .raised
    | _, some p =>
      if p.text.toList.contains '\x00' then
        .error (.refused [v.checked "database_path" "embedded null byte"])
      else .ok { s with databasePath := some (cwd.resolve p) }

end SettingsOption

/-! ### The section on names -/

/-- An option of the section on names. -/
structure NameOption where
  name : String
  get : NameParts → String
  assign : String → NameParts → NameParts

/-- The options of the section on names. -/
def NameParts.options : List NameOption := [
  ⟨"getter_prefix", (·.getter), fun t n => { n with getter := t }⟩,
  ⟨"setter_prefix", (·.setter), fun t n => { n with setter := t }⟩,
  ⟨"is_prefix", (·.test), fun t n => { n with test := t }⟩,
  ⟨"is_not_prefix", (·.testNot), fun t n => { n with testNot := t }⟩,
  ⟨"set_not_prefix", (·.setNot), fun t n => { n with setNot := t }⟩,
  ⟨"unset_prefix", (·.unset), fun t n => { n with unset := t }⟩,
  ⟨"toggle_prefix", (·.toggle), fun t n => { n with toggle := t }⟩,
  ⟨"proxy_method_prefix", (·.proxy), fun t n => { n with proxy := t }⟩,
  ⟨"singleton_instance_getter_name", (·.singleton), fun t n => { n with singleton := t }⟩]

namespace SettingsOption

/-- Chooses names from the members of the section, and collects the problems. -/
def assignNames (v : Validation) (m : Bag) (n : NameParts) :
    List NameOption → NameParts × List OptionProblem
  | [] => (n, [])
  | o :: os =>
    match (m.get? o.name).map (v.text ("names." ++ o.name)) with
    | none => assignNames v m n os
    | some (.ok t) => assignNames v m (o.assign t n) os
    | some (.error ps) => let r := assignNames v m n os; (r.1, ps ++ r.2)

/-- The section on names. -/
def names : SettingsOption where
  name := "names"
  assign v _ _ x s :=
    match (v.members "names" x).map fun m => assignNames v m {} NameParts.options with
    | .error ps => .error (.refused ps)
    | .ok (n, []) => .ok { s with names := n }
    | .ok (_, ps) => .error (.refused ps)

/-- Every option, in the order in which problems are reported. -/
def all : List SettingsOption := [
  files,
  extensions,
  taken "recursive" (·.bool) fun b s => { s with recursive := b },
  taken "quiet" (·.bool) fun b s => { s with quiet := b },
  taken "verbose" (·.bool) fun b s => { s with verbose := b },
  taken "workers" optionalInteger fun n s => { s with workers := n },
  databasePath,
  taken "default_namespace" (·.text) fun t s => { s with defaultNamespace := t },
  taken "generate_accessors_for_public_fields" (·.bool)
    fun b s => { s with accessorsForPublicFields := b },
  taken "generate_properties_for_public_fields" (·.bool)
    fun b s => { s with propertiesForPublicFields := b },
  taken "annotation_prefix" (·.text) fun t s => { s with markerStem := t },
  taken "enum_annotation_name" optionalText fun t s => { s with markerNames.enumType := t },
  taken "enumerator_annotation_name" optionalText fun t s => { s with markerNames.enumerator := t },
  taken "class_annotation_name" optionalText fun t s => { s with markerNames.classType := t },
  taken "field_annotation_name" optionalText fun t s => { s with markerNames.field := t },
  taken "method_annotation_name" optionalText fun t s => { s with markerNames.method := t },
  taken "body_annotation_name" optionalText fun t s => { s with markerNames.body := t },
  names,
  taken "default_class_attributes" (·.bag) fun b s => { s with defaults.classes := b },
  taken "default_field_attributes" (·.bag) fun b s => { s with defaults.fields := b },
  taken "default_method_attributes" (·.bag) fun b s => { s with defaults.methods := b },
  taken "default_enum_attributes" (·.bag) fun b s => { s with defaults.enums := b },
  taken "default_enumerator_attributes" (·.bag) fun b s => { s with defaults.enumerators := b }]

end SettingsOption

/-! ### Settings -/

namespace Settings

variable (v : Validation) (homes : Homes) (cwd : SourcePath)

/-- Chooses the value of every option that is present, and collects what is refused. -/
def readOptions (m : Bag) (s : Settings) :
    List SettingsOption → Except OptionFailure Settings
  | [] => .ok s
  | o :: os =>
    match (m.get? o.name).map (o.assign v homes cwd · s) with
    | none => readOptions m s os
    | some (.ok t) => readOptions m t os
    | some (.error .raised) => .error .raised
    | some (.error (.refused ps)) =>
      match readOptions m s os with
      | .ok _ => .error (.refused ps)
      | .error (.refused qs) => .error (.refused (ps ++ qs))
      | .error .raised => .error .raised

/-- The settings that a mapping chooses. -/
def decode (m : Bag) : Except OptionFailure Settings :=
  readOptions v homes cwd m {} SettingsOption.all

end Settings

end HeaderReflection
