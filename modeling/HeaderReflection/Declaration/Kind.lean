/-! # Kinds of declarations

What a header can declare, and how visible a member is.

Every kind has a label, for messages and lists, and a noun for sentences.  Visibility is told by access labels
between the members of a class (`Access.ofLabelLine?`); types have none of their own. -/

namespace HeaderReflection

/-! ### Kinds -/

/-- The kinds of declarations. -/
inductive DeclarationKind where
  | field
  | method
  | property
  | classType
  | enumType
  | enumerator
  deriving DecidableEq, Repr

namespace DeclarationKind

/-- Every kind, in the order in which messages list them. -/
def all : List DeclarationKind := [.field, .method, .property, .classType, .enumType, .enumerator]

/-- The name of a kind. -/
def label : DeclarationKind → String
  | .field => "Field"
  | .method => "Method"
  | .property => "Property"
  | .classType => "Class"
  | .enumType => "Enum"
  | .enumerator => "Enumerator"

/-- The name of a kind inside a sentence. -/
def noun : DeclarationKind → String
  | .field => "field"
  | .method => "method"
  | .property => "property"
  | .classType => "class"
  | .enumType => "enum"
  | .enumerator => "enumerator"

theorem mem_all (k : DeclarationKind) : k ∈ all := by cases k <;> decide

end DeclarationKind

/-! ### Visibility -/

/-- Who may name a declaration; types do not say. -/
inductive Access where
  | unspecified
  | everyone
  | subclasses
  | owner
  deriving DecidableEq, Repr

namespace Access

/-- The name of a visibility. -/
def label : Access → String
  | .unspecified => "Unspecified"
  | .everyone => "Public"
  | .subclasses => "Protected"
  | .owner => "Private"

/-- Members that code outside the class may name. -/
def isPublic : Access → Bool
  | .unspecified | .everyone => true
  | .subclasses | .owner => false

/-- The visibility that a line consisting of an access label selects. -/
def ofLabelLine? (line : String) : Option Access :=
  if line = "public:" then some .everyone
  else if line = "protected:" then some .subclasses
  else if line = "private:" then some .owner
  else none

end Access

end HeaderReflection
