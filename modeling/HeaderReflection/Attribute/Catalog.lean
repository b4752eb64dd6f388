import HeaderReflection.Attribute.Basic

/-! # The known attributes

Every attribute that a header can use, in the order in which they are listed to users.

* No name belongs to two of them (`Attribute.nodup_names_known`), so a name determines its attribute.  A
  catalog carries this with it, and an attribute can join it only if its names are new (`Catalog.register`).
* Four attributes stand for native ones, and no attribute list may set them (`Catalog.rejectUnsettable`).  Nor
  may a default bag, which is written by a user as well.
* Categories are there for listing only, in the order of their first members (`Catalog.byCategory`). -/

namespace HeaderReflection

namespace Attribute

def displayName : Attribute where
  names := ["DisplayName"]
  description := "The name that is going to be displayed in editors and such"
  targets := DeclarationKind.all
  check := .nonEmpty

def saveName : Attribute where
  names := ["SaveName"]
  description :=
    "The name that this field will be saved with; can be used to rename fields without " ++
    "losing already serialized data"
  targets := [.field]
  check := .nonEmpty

def loadName : Attribute where
  names := ["LoadName"]
  description :=
    "The name that this field will be loaded from; can be used to rename fields without " ++
    "losing already serialized data"
  targets := [.field]
  check := .nonEmpty

def namespaceName : Attribute where
  names := ["Namespace"]
  description := "Namespaces are not parsed; set this to the full namespace of the following type"
  targets := [.classType, .enumType]
  check := .namespaceName

def guid : Attribute where
  names := ["GUID"]
  description := "A globally-unique ID for this type. Can aid with renaming."
  targets := [.classType, .enumType]
  check := .nonEmpty

def getter : Attribute where
  names := ["Getter"]
  description := "Whether or not to create a getter for this field"
  targets := [.field]
  check := .bool
  default := .bool true

def setter : Attribute where
  names := ["Setter"]
  description := "Whether or not to create a setter for this field"
  targets := [.field]
  check := .bool
  default := .bool true

def editor : Attribute where
  names := ["Editor", "Edit"]
  description := "Whether or not this entity should be editable"
  targets := [.field, .classType]
  check := .bool
  default := .bool true

def script : Attribute where
  names := ["Script", "Scriptable"]
  description := "Whether or not this entity should be accessible via script"
  targets := [.field, .method, .classType]
  check := .bool
  default := .bool true

def saved : Attribute where
  names := ["Save"]
  description := "Whether or not this field should be saveable"
  targets := [.field]
  check := .bool
  default := .bool true

def loaded : Attribute where
  names := ["Load"]
  description := "Whether or not this field should be loadable"
  targets := [.field]
  check := .bool
  default := .bool true

def documented : Attribute where
  names := ["Document", "Doc"]
  description := "Whether or not to create a documentation entry for this entity"
  targets := DeclarationKind.all
  check := .bool
  default := .bool true

def documentMembers : Attribute where
  names := ["DocumentMembers"]
  description := "Whether or not to create documentation entries for members of this entity"
  targets := [.classType, .enumType]
  check := .bool
  default := .bool true

def serialize : Attribute where
  names := ["Serialize"]
  description := "False means both 'Save' and 'Load' are false"
  targets := [.field, .classType]
  check := .bool
  default := .bool true

def privateField : Attribute where
  names := ["Private"]
  description := "True sets 'Edit', 'Setter', 'Getter' to false"
  targets := [.field]
  check := .bool
  default := .bool false

def transient : Attribute where
  names := ["Transient"]
  description := "True sets 'Setter' and 'Serialize' to false"
  targets := [.field]
  check := .bool
  default := .bool false

def scriptPrivate : Attribute where
  names := ["ScriptPrivate"]
  description := "True sets 'Setter', 'Getter' to false"
  targets := [.field]
  check := .bool
  default := .bool false

def required : Attribute where
  names := ["Required"]
  description := "The marked field is required to be present when deserializing class"
  targets := [.field]
  check := .bool
  default := .bool false

def privateGetters : Attribute where
  names := ["PrivateGetters"]
  description := "Whether to generate getters for private members"
  targets := [.classType]
  check := .bool
  default := .bool true

def privateSetters : Attribute where
  names := ["PrivateSetters"]
  description := "Whether to generate setters for private members"
  targets := [.classType]
  check := .bool
  default := .bool false

def onChange : Attribute where
  names := ["OnChange"]
  description := "Executes the given code when this field changes via setter functions"
  targets := [.field]
  check := .string

def flagGetters : Attribute where
  names := ["FlagGetters"]
  description :=
    "If set to a reflected enum name, creates public getter functions (IsFlag) for each flag " ++
    "in the enum; can't be set if the 'Flags' attribute is set"
  targets := [.field]
  check := .reflectedEnum
  category := "Flags"

def flags : Attribute where
  names := ["Flags"]
  description :=
    "If set to a reflected enum name, creates public getter and setter functions (IsFlag, " ++
    "SetFlag, UnsetFlag, ToggleFlag) for each flag in the enum; can't be set if the " ++
    "'FlagGetters' attribute is set"
  targets := [.field]
  check := .reflectedEnum
  category := "Flags"

def flagNots : Attribute where
  names := ["FlagNots"]
  description :=
    "Requires 'Flags' attribute. If set, creates IsNotFlag functions in addition to regular " ++
    "IsFlag (except for enumerators with Opposite attribute)."
  targets := [.field]
  check := .bool
  default := .bool false
  category := "Flags"

def uniqueName : Attribute where
  names := ["UniqueName"]
  description :=
    "A unique (within this class) name of this method; useful when script-binding overloaded " ++
    "functions to languages without overloading"
  targets := [.method]
  check := .identifier

def scriptName : Attribute where
  names := ["ScriptName"]
  description := "The name of this class member that will be used in scripts"
  targets := [.field, .method]
  check := .identifier

def getterFor : Attribute where
  names := ["GetterFor"]
  description :=
    "This function is a getter for the named property; useful when you are binding property " ++
    "accessors to scripts"
  targets := [.method]
  check := .nonEmpty

def setterFor : Attribute where
  names := ["SetterFor"]
  description :=
    "This function is a setter for the named property; useful when you are binding property " ++
    "accessors to scripts"
  targets := [.method]
  check := .nonEmpty

def propertyName : Attribute where
  names := ["Property"]
  description :=
    "For methods, if true, is equivalent to `GetterFor = <methodname>`. For fields, if " ++
    "false, will not create a property for this field if it would otherwise have been."
  targets := [.field, .method]
  check := .bool

def abstractClass : Attribute where
  names := ["Abstract", "Interface"]
  description := "This class is abstract (don't create special constructors)"
  targets := [.classType]
  check := .bool
  default := .bool false

def singleton : Attribute where
  names := ["Singleton"]
  description :=
    "This class is a singleton. Adds a static function (default name 'SingletonInstance') " ++
    "that returns the single instance of this record."
  targets := [.classType]
  check := .bool
  default := .bool false

def defaultFieldAttributes : Attribute where
  names := ["DefaultFieldAttributes"]
  description := "These attributes will be added as default to every reflected field of this class"
  targets := [.classType]
  check := .object
  default := .object []

def defaultMethodAttributes : Attribute where
  names := ["DefaultMethodAttributes"]
  description := "These attributes will be added as default to every reflected method of this class"
  targets := [.classType]
  check := .object
  default := .object []

def defaultEnumeratorAttributes : Attribute where
  names := ["DefaultEnumeratorAttributes"]
  description := "These attributes will be added as default to every enumerator of this enum"
  targets := [.enumType]
  check := .object
  default := .object []

def createProxy : Attribute where
  names := ["CreateProxy"]
  description := "Whether or not proxy methods should be built for this class"
  targets := [.classType]
  check := .bool
  default := .bool true

def unimplemented : Attribute where
  names := ["Unimplemented"]
  description :=
    "The functionality this entity represents is not implemented; mostly useful for " ++
    "documentation"
  targets := DeclarationKind.all
  check := .bool
  default := .bool false

def uniqueId : Attribute where
  names := ["UniqueID"]
  description :=
    "If set, will create a unique ID field with the given name, and a generator function, " ++
    "for this class"
  targets := [.classType]
  check := .identifier

def listEnum : Attribute where
  names := ["List", "Sequence"]
  description :=
    "Whether or not to generate GetNext() and GetPrev() functions that return the next/prev " ++
    "enumerator in sequence, wrapping around"
  targets := [.enumType]
  check := .bool
  default := .bool false
  category := "Enumerations"

def opposite : Attribute where
  names := ["Opposite"]
  description :=
    "When used in a flag enum, will create a virtual flag with the given name that is the " ++
    "complement of this one, for the purposes of creating getters and setters"
  targets := [.enumerator]
  check := .identifier
  category := "Enumerations"

def aliasEnum : Attribute where
  names := ["AliasEnum"]
  description :=
    "The marked enum is not meant as a container for enumerators, but as a strong type alias " ++
    "for another integral type"
  targets := [.enumType]
  check := .bool
  default := .bool false
  category := "Enumerations"

def noReturn : Attribute where
  names := ["NoReturn"]
  description := "Do not set this directly. Use [[noreturn]] instead."
  targets := [.method]
  check := .bool
  default := .bool false
  category := "C++ Attributes"
  userSettable := false

def deprecatedMark : Attribute where
  names := ["Deprecated"]
  description := "Do not set this directly. Use [[deprecated]] instead."
  targets := DeclarationKind.all
  check := .boolOrString
  default := .bool false
  category := "C++ Attributes"
  userSettable := false

def noDiscard : Attribute where
  names := ["NoDiscard"]
  description := "Do not set this directly. Use [[nodiscard]] instead."
  targets := [.method, .classType, .enumType]
  check := .boolOrString
  default := .bool false
  category := "C++ Attributes"
  userSettable := false

def noUniqueAddress : Attribute where
  names := ["NoUniqueAddress"]
  description := "Do not set this directly. Use [[no_unique_address]] instead."
  targets := [.field]
  check := .bool
  default := .bool false
  category := "C++ Attributes"
  userSettable := false

/-! ### The list -/

/-- The known attributes. -/
def known : List Attribute := [
  displayName, saveName, loadName, namespaceName, guid, getter, setter, editor, script, saved,
  loaded, documented, documentMembers, serialize, privateField, transient, scriptPrivate,
  required, privateGetters, privateSetters, onChange, flagGetters, flags, flagNots, uniqueName,
  scriptName, getterFor, setterFor, propertyName, abstractClass, singleton,
  defaultFieldAttributes, defaultMethodAttributes, defaultEnumeratorAttributes, createProxy,
  unimplemented, uniqueId, listEnum, opposite, aliasEnum, noReturn, deprecatedMark, noDiscard,
  noUniqueAddress]

set_option maxRecDepth 4000 in
/-- No name belongs to two attributes, or twice to one. -/
theorem nodup_names_known : (known.flatMap (·.names)).Nodup := by decide

end Attribute

/-! ### Catalogs -/

/-- A list of attributes that share no name. -/
structure Catalog where
  entries : List Attribute
  nodup : (entries.flatMap (·.names)).Nodup

namespace Catalog

/-- The known attributes. -/
def standard : Catalog := ⟨Attribute.known, Attribute.nodup_names_known⟩

/-- The attribute that a name belongs to. -/
def find? (c : Catalog) (name : String) : Option Attribute :=
  c.entries.find? (·.names.contains name)

/-- Why an attribute cannot join a catalog. -/
inductive RegisterFault where
  | taken (name : String)
  deriving DecidableEq, Repr

/-- The wording of a refusal. -/
def RegisterFault.message : RegisterFault → String
  | .taken n => "Attribute name '" ++ n ++ "' registered twice"

/-- The wording for a name that no attribute has. -/
def unknownMessage (name : String) : String := "No attribute registered for " ++ name

/-- Adds an attribute whose names are new. -/
def register (c : Catalog) (a : Attribute) (h : a.names.Nodup) : Except RegisterFault Catalog :=
  match ht : a.names.find? fun n => (c.find? n).isSome with
  | some n => .error (.taken n)
  | none => .ok ⟨c.entries ++ [a], by
      rw [List.flatMap_append, List.nodup_append]
      refine ⟨c.nodup, by simpa using h, fun x hx y hy e => ?_⟩
      subst e
      obtain ⟨b, hb, hxb⟩ := List.mem_flatMap.mp hx
      have hxa : x ∈ a.names := by simpa using hy
      have := List.find?_eq_none.mp ht x hxa
      simp only [find?, List.find?_isSome, not_exists, not_and] at this
      exact this b hb (by simpa using hxb)⟩

/-- The attributes of a bag that attribute lists may not set, by the names used in it. -/
def unsettable (c : Catalog) (bag : Bag) : List String :=
  (c.entries.filter (!·.userSettable)).filterMap (·.nameIn? bag)

/-- Refuses a bag with attributes that attribute lists may not set. -/
def rejectUnsettable (c : Catalog) (bag : Bag) : Except Cause Unit :=
  match c.unsettable bag with
  | [] => .ok ()
  | ns => .error (.unsettable ns)

/-- The attributes of each category, in the order of their first members. -/
def byCategory (c : Catalog) : Keyed (List Attribute) :=
  c.entries.foldl (fun m a => m.put a.category ((m.get? a.category).getD [] ++ [a])) []

end Catalog

end HeaderReflection
