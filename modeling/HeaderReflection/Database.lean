import HeaderReflection.Program.Entity
import HeaderReflection.Value.Json

/-! # The database

The declarations of a program as values, and their written form.

* A member that would say nothing, such as an empty list or a name equal to another one, is left out; the
  members that remain stand in a fixed order.
* What refers to another declaration has its full name.  A method that is referred to has its identifier in
  its name, so that overloads are told apart.
* Fields, enumerators, classes and enums stand under their names, and of several with one name the last one
  counts (`Database.byName`); methods and properties are lists.
* A header without declarations is left out.

The database of a program is a value (`Database.ofProgram`), which is written as a text unless a number in it
is too long (`Database.write`). -/

namespace HeaderReflection.Database

/-- The version of the format. -/
def version : Int := 1

/-- The members of an object. -/
abbrev Members := List (String × Value)

/-! ### Members that may be left out -/

/-- A member that is left out unless `b` is true. -/
def memberIf (b : Bool) (key : String) (v : Value) : Members := if b then [(key, v)] else []

/-- A member that is left out if its text is empty. -/
def text (key s : String) : Members := memberIf (!s.isEmpty) key (.str s)

/-- A member that is left out if its text is `other`. -/
def textUnless (other key s : String) : Members := memberIf (s != other) key (.str s)

/-- A member that is left out if its list is empty. -/
def items (key : String) (vs : List Value) : Members := memberIf (!vs.isEmpty) key (.array vs)

/-- A member that is left out if its object is empty. -/
def bag (key : String) (b : Bag) : Members := memberIf (!b.isEmpty) key (.object b)

/-- The names of raised flags, left out if there are none. -/
def flags {F : Type} [DecidableEq F] [FlagFamily F] (key : String) (s : FlagSet F) : Members :=
  items key (s.labels.map .str)

/-! ### Members of declarations -/

/-- A note. -/
def ofNote (n : DocNote) : Value :=
  .object <| [("Header", .str n.header), ("Contents", .str n.contents)] ++
    memberIf n.showInMemberList "ShowInMemberList" (.bool true) ++ text "Icon" n.icon

/-- A parameter. -/
def ofParameter (p : Parameter) : Value :=
  .object <| [("Name", .str p.name), ("Type", .str p.type)] ++ text "Initializer" p.initializer

/-- The full name of the class that owns a member. -/
def ownerName : Entity → String
  | .classType c | .field c _ | .method c _ | .property c _ => c.fullName
  | .enumType e | .enumerator e _ => e.fullName

/-- The full names of the methods made from a declaration, by role. -/
def synthesized (owner : String) (ms : Keyed MethodLink) : Members :=
  memberIf (!ms.isEmpty) "AssociatedArtificialMethods"
    (.object (ms.map fun p => (p.1, .str (p.2.fullName owner "."))))

/-- The members that all declarations have. -/
def common (e : Entity) : Members :=
  let d := e.declaration
  [("Name", .str d.name), ("Kind", .str e.kind.label)] ++
    memberIf (d.line != 0) "DeclarationLine" (.int d.line) ++
    memberIf (d.uid != 0) "UID" (.str (Uid.hex d.uid)) ++
    items "Comments" (d.comments.map .str) ++
    bag "Attributes" d.attributes ++
    [("FullName", .str e.fullName)] ++
    memberIf (!d.displayName.isEmpty && d.displayName != d.name) "DisplayName" (.str d.displayName) ++
    memberIf (d.access != .unspecified) "Access" (.str d.access.label) ++
    memberIf (!d.documentMembers) "DocumentMembers" (.bool false) ++
    items "DocNotes" (d.docNotes.map ofNote) ++
    flags "EntityFlags" d.entityFlags ++
    text "Deprecation" (d.deprecation.getD "") ++
    synthesized (ownerName e) d.synthesized

/-- The members of a field. -/
def fieldMembers (f : Field) : Members :=
  [("Type", .str f.type)] ++
    text "InitializingExpression" f.initializer ++
    textUnless f.name "CleanName" f.cleanName ++
    textUnless f.name "LoadName" f.loadName ++
    textUnless f.name "SaveName" f.saveName ++
    flags "Flags" f.flags

/-- The full name of the declaration that a method was made from. -/
def originName? (c : Class) : Origin → Option String
  | .owner => some c.fullName
  | .field i => c.fields[i]?.map fun f => c.memberName f.name
  | .method i => c.methods[i]?.map fun m => c.methodName m

/-- A member that is left out if there is no text. -/
def optionalText (key : String) (s : Option String) : Members :=
  (s.map fun t => (key, Value.str t)).toList

/-- The members of a method. -/
def methodMembers (c : Class) (m : Method) : Members :=
  [("ReturnType", .str m.returnType), ("Signature", .str (m.signature c.fullType))] ++
    items "Parameters" (m.parameters.map ofParameter) ++
    text "ArtificialBody" m.body ++
    optionalText "SourceDeclaration" (m.synthesis.bind fun s => originName? c s.origin) ++
    text "UniqueName" (m.scriptedName.getD "") ++
    flags "Flags" m.flags

/-- The full name of an accessor. -/
def accessorName (c : Class) (m : Option MethodLink) : Value :=
  match m with
  | some l => .str (l.fullName c.fullName ".")
  | none => .null

/-- The members of a property. -/
def propertyMembers (c : Class) (p : Property) : Members :=
  [("Type", .str p.type), ("Getter", accessorName c p.getter),
    ("Setter", accessorName c p.setter)] ++
    optionalText "SourceField" (p.source.bind fun i => originName? c (.field i)) ++
    flags "Flags" p.flags

/-- The members of an enumerator. -/
def enumeratorMembers (x : Enumerator) : Members :=
  [("Value", .int x.value)] ++ text "Opposite" x.opposite

/-- The members of a class or enum. -/
def typeMembers (t : TypeDeclaration) : Members :=
  text "Namespace" t.scope ++ text "GUID" (t.guid.getD "") ++ [("FullType", .str t.fullType)]

/-! ### Declarations -/

/-- A flag that a field declares for its class. -/
def ofDeclaredFlag (f : DeclaredFlag) : Value :=
  .object [("Name", .str f.name), ("Field", .str f.field), ("Enumerator", .str f.enumerator),
    ("Methods", Value.strings (f.methods.map (·.name)))]

/-- A field of a class. -/
def ofField (c : Class) (f : Field) : Value := .object (common (.field c f) ++ fieldMembers f)

/-- A method of a class. -/
def ofMethod (c : Class) (m : Method) : Value :=
  .object (common (.method c m) ++ methodMembers c m)

/-- A property of a class. -/
def ofProperty (c : Class) (p : Property) : Value :=
  .object (common (.property c p) ++ propertyMembers c p)

/-- An enumerator of an enum. -/
def ofEnumerator (e : Enumeration) (x : Enumerator) : Value :=
  .object (common (.enumerator e x) ++ enumeratorMembers x)

/-- Declarations by name; of several with one name the last one counts. -/
def byName (l : List (String × Value)) : Value := .object (Keyed.ofList l)

/-- A class with all its members. -/
def ofClass (c : Class) : Value :=
  .object <| common (.classType c) ++ typeMembers c.toTypeDeclaration ++
    text "BaseClass" c.baseClass ++
    flags "Flags" c.flags ++
    memberIf (!c.fields.isEmpty) "Fields" (byName (c.fields.map fun f => (f.name, ofField c f))) ++
    items "Methods" (c.methods.map (ofMethod c)) ++
    items "Properties" (c.properties.map fun p => ofProperty c p.2) ++
    items "DeclaredFlags" (c.declaredFlags.map ofDeclaredFlag) ++
    [("BodyLine", .int c.bodyLine)] ++
    items "AdditionalBodyLines" (c.bodyAdditions.map .str) ++
    bag "DefaultFieldAttributes" c.defaultFieldAttributes ++
    bag "DefaultMethodAttributes" c.defaultMethodAttributes

/-- An enum with its enumerators. -/
def ofEnum (e : Enumeration) : Value :=
  .object <| common (.enumType e) ++ typeMembers e.toTypeDeclaration ++
    [("Enumerators", byName (e.enumerators.map fun x => (x.name, ofEnumerator e x)))] ++
    text "BaseType" e.baseType ++
    bag "DefaultEnumeratorAttributes" e.defaultEnumeratorAttributes ++
    [("Trivial", .bool e.isTrivial), ("Consecutive", .bool e.isConsecutive)] ++
    flags "Flags" e.flags

/-- A declaration with everything that it owns. -/
def ofEntity : Entity → Value
  | .classType c => ofClass c
  | .field c f => ofField c f
  | .method c m => ofMethod c m
  | .property c p => ofProperty c p
  | .enumType e => ofEnum e
  | .enumerator e x => ofEnumerator e x

/-! ### Headers and programs -/

/-- A header. -/
def ofHeader (h : Header) : Value :=
  .object [("SourceFilePath", .str h.path.text),
    ("Classes", byName (h.classes.map fun c => (c.fullName, ofClass c))),
    ("Enums", byName (h.enums.map fun e => (e.fullName, ofEnum e)))]

/-- A program; headers without declarations are left out. -/
def ofProgram (p : Program) : Value :=
  .object [("Version", .int version),
    ("Files", .array ((p.headers.filter (!·.isEmpty)).map ofHeader))]

/-- The written database of a program, unless a number in it is too long. -/
def write (p : Program) : Except Text.Overlong String := (ofProgram p).toJson

end HeaderReflection.Database
