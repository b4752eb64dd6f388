import HeaderReflection.SourcePath
import HeaderReflection.Value

/-! # Settings

What a user can choose.  Everything has a default, which is the one of the structure.

* Markers are named after a common stem unless they are given names of their own (`Settings.markerName`).
* Every kind of declaration has a default bag, with the attributes that declarations have unless they set them
  themselves.
* The names of synthesized methods begin with parts that can be chosen (`NameParts`).
* There are as many workers as the settings say; how many there are if they do not say is not up to the
  program.  None at all, or less than none, is no choice that work can be done with (`Settings.hasWorkers`). -/

namespace HeaderReflection

/-! ### Markers and names -/

/-- The kinds of markers. -/
inductive MarkerKind where
  | enumType
  | enumerator
  | classType
  | field
  | method
  | body
  deriving DecidableEq, Repr

namespace MarkerKind

/-- Every kind of marker. -/
def all : List MarkerKind := [.enumType, .enumerator, .classType, .field, .method, .body]

/-- What a marker's name has behind the common stem. -/
def ending : MarkerKind → String
  | .enumType => "Enum"
  | .enumerator => "Enumerator"
  | .classType => "Class"
  | .field => "Field"
  | .method => "Method"
  | .body => "Body"

end MarkerKind

/-- What the names of synthesized methods begin with. -/
structure NameParts where
  getter : String := "Get"
  setter : String := "Set"
  test : String := "Is"
  testNot : String := "IsNot"
  setNot : String := "SetNot"
  unset : String := "Unset"
  toggle : String := "Toggle"
  proxy : String := "_proxy_"
  /-- The whole name of the method that answers the instance of a singleton. -/
  singleton : String := "SingletonInstance"
  deriving DecidableEq, Repr

/-- The attributes that every declaration of a kind has unless it sets them itself. -/
structure DefaultBags where
  classes : Bag := []
  fields : Bag := []
  methods : Bag := []
  enums : Bag := []
  enumerators : Bag := []
  deriving DecidableEq, Repr

/-- The bags in the order in which they are checked. -/
def DefaultBags.toList (d : DefaultBags) : List Bag :=
  [d.classes, d.fields, d.methods, d.enums, d.enumerators]

/-- Names given to markers one by one. -/
structure MarkerNames where
  enumType : Option String := none
  enumerator : Option String := none
  classType : Option String := none
  field : Option String := none
  method : Option String := none
  body : Option String := none
  deriving DecidableEq, Repr

/-- The name given to a kind of marker. -/
def MarkerNames.given? (m : MarkerNames) : MarkerKind → Option String
  | .enumType => m.enumType
  | .enumerator => m.enumerator
  | .classType => m.classType
  | .field => m.field
  | .method => m.method
  | .body => m.body

/-! ### Settings -/

/-- The choices of a user. -/
structure Settings where
  /-- The files and directories to scan when none are named. -/
  files : List SourcePath := []
  /-- The suffixes of the files that are scanned in directories. -/
  extensions : List String := [".h", ".hpp"]
  recursive : Bool := false
  quiet : Bool := false
  verbose : Bool := false
  /-- How many workers run at the same time, if that is chosen. -/
  workers : Option Int := none
  databasePath : Option SourcePath := none
  defaultNamespace : String := ""
  accessorsForPublicFields : Bool := true
  propertiesForPublicFields : Bool := false
  markerStem : String := "R"
  markerNames : MarkerNames := {}
  names : NameParts := {}
  defaults : DefaultBags := {}
  deriving DecidableEq, Repr

namespace Settings

/-- Whether there are workers at all. -/
def hasWorkers (s : Settings) : Bool := s.workers.all (0 < ·)

/-- The unfinished job that goes on in a turn: only as many jobs as there are workers have been begun. -/
def turn (s : Settings) (i : Nat) : Nat :=
  match s.workers with
  | some n => i % n.toNat
  | none => i

/-- The name of a kind of marker. -/
def markerName (s : Settings) (k : MarkerKind) : String :=
  match s.markerNames.given? k with
  | some n => if n.isEmpty then s.markerStem ++ k.ending else n
  | none => s.markerStem ++ k.ending

end Settings

end HeaderReflection
