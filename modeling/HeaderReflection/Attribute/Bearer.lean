import HeaderReflection.Attribute.Catalog

/-! # Reading attributes

A bearer is what reading an attribute needs of a declaration: its kind, its attributes and its place.

* Every reading checks the value first, so an attribute with a wrong value is a fault wherever it is read.
* A value that is null counts as absent, and then the next name of the attribute is tried (`Bearer.find?`).
* There is one reading for each type of values: truth values, texts, marks and objects.  A reading whose name
  ends with a question mark says whether the attribute is present, and the others answer the default of the
  attribute.

A bearer also knows which names are those of reflected enums, as far as headers have been read.  All of them
are known only once every header is read, so the check of a whole bag puts off the attributes that name one
(`Bearer.validate`, `Bearer.deferred`). -/

namespace HeaderReflection

/-! ### Marks -/

/-- An attribute that is a mark, which may come with a reason. -/
inductive Mark where
  | absent
  | plain
  | because (reason : String)
  deriving DecidableEq, Repr

namespace Mark

/-- The mark that a value sets. -/
def ofValue : Value → Mark
  | .bool true => .plain
  | .str s => .because s
  | _ => .absent

/-- Whether the mark is set. -/
def isPresent (m : Mark) : Bool := m != .absent

/-- The reason of a mark. -/
def reason? : Mark → Option String
  | .because s => some s
  | _ => none

end Mark

/-- No name is that of a reflected enum, as far as a single header can tell. -/
def Bearer.noEnum : String → Bool := fun _ => false

/-! ### Bearers -/

/-- A declaration as the bearer of attributes. -/
structure Bearer where
  kind : DeclarationKind
  attributes : Bag
  path : Option SourcePath := none
  line : Int := 0
  /-- Which names are those of reflected enums, as far as headers have been read. -/
  isEnum : String → Bool := Bearer.noEnum

namespace Bearer

/-- The fault of an attribute on a bearer. -/
def invalid (b : Bearer) (a : Attribute) (f : ValueFault) : Fault :=
  ⟨.invalidAttribute a.name f, b.path, b.line, 1, []⟩

/-- The value that is present under the first accepted name with one. -/
def find? (b : Bearer) (a : Attribute) : Option Value :=
  a.names.findSome? fun n =>
    match b.attributes.get? n with
    | none | some .null => none
    | some v => some v

/-- The checked value, if one is present. -/
def lookup? (isEnum : String → Bool) (b : Bearer) (a : Attribute) : Checked (Option Value) :=
  match b.find? a with
  | none => .ok none
  | some v =>
    match a.fault? isEnum b.kind v with
    | none => .ok (some v)
    | some f => .error (b.invalid a f)

/-- The checked value, or the attribute's default. -/
def lookup (isEnum : String → Bool) (b : Bearer) (a : Attribute) : Checked Value :=
  (b.lookup? isEnum a).map (·.getD a.default)

/-- The truth of a boolean attribute, if it is present. -/
def bool? (b : Bearer) (a : Attribute) : Checked (Option Bool) :=
  (b.lookup? b.isEnum a).map fun v => v.bind Value.bool?

/-- The truth of a boolean attribute, or its default. -/
def bool (b : Bearer) (a : Attribute) : Checked Bool :=
  (b.lookup b.isEnum a).map fun v => v.bool?.getD false

/-- The text of a string attribute, if it is present. -/
def string? (b : Bearer) (a : Attribute) : Checked (Option String) :=
  (b.lookup? b.isEnum a).map fun v => v.bind Value.string?

/-- The mark that an attribute sets. -/
def mark (b : Bearer) (a : Attribute) : Checked Mark :=
  (b.lookup b.isEnum a).map Mark.ofValue

/-- The members of an object attribute, if it is present. -/
def object (b : Bearer) (a : Attribute) : Checked Bag :=
  (b.lookup? b.isEnum a).map fun v => (v.bind Value.object?).getD []

/-! ### Whole bags -/

/-- The fault of one member of a bag.  Of the attributes that are put off, only the kind of
declaration is checked. -/
def memberFault? (isEnum : String → Bool) (b : Bearer) (deferred : List Attribute) (key : String)
    (v : Value) : Option Fault :=
  if v = .null then none
  else
    match Catalog.standard.find? key with
    | none => none
    | some a =>
      if deferred.contains a && a.appliesTo b.kind then none
      else (a.fault? isEnum b.kind v).map (b.invalid a)

/-- Checks every member of a bag. -/
def validate (isEnum : String → Bool) (b : Bearer) (deferred : List Attribute) : Checked Unit :=
  match b.attributes.findSome? fun m => b.memberFault? isEnum deferred m.1 m.2 with
  | none => .ok ()
  | some f => .error f

/-- The attributes that name a reflected enum. -/
def deferred : List Attribute := [.flags, .flagGetters]

end Bearer

end HeaderReflection
