import HeaderReflection.Source.EnumText
import HeaderReflection.Source.Reader

/-! # Enum declarations

An enum is declared by its head, and its enumerators are added line by line until the closing brace
(`EnumBody`).

An enumerator without a value has the value behind that of the enumerator before it, the first one zero.  Its
attributes are merged from the default bags of the settings and of the enum, the list in front of it and the
native attributes in its text. -/

namespace HeaderReflection

/-- An enum whose closing brace has not been read. -/
structure EnumBody where
  declared : Enumeration
  /-- The attribute list for the next enumerator. -/
  pending : Bag := []
  /-- The comments above the next enumerator. -/
  comments : List String := []
  /-- The value of the next enumerator if it has none of its own. -/
  next : Int := 0
  deriving DecidableEq, Repr

namespace Reader

/-- The enum with the given head, without enumerators. -/
def enumOf (r : Reader) (site : MarkerSite) (head : EnumHead) : Checked Enumeration := do
  let attributes := (r.settings.defaults.enums.merge site.attributes).merge head.native
  let b ← r.checkedBearer site .enumType attributes
  let displayName ← b.string? .displayName
  let scope ← b.string? .namespaceName
  let guid ← b.string? .guid
  let defaultEnumeratorAttributes ← b.object .defaultEnumeratorAttributes
  Catalog.standard.rejectUnsettable defaultEnumeratorAttributes
  let isList ← b.bool .listEnum
  let isAlias ← b.bool .aliasEnum
  return {
    site.declaration head.name attributes with
    displayName := displayName.getD head.name
    scope := scope.getD r.settings.defaultNamespace
    guid
    path := site.path
    baseType := head.baseType
    defaultEnumeratorAttributes
    flags := (FlagSet.ofList []).insertIf isList .list |>.insertIf isAlias .aliasType }

/-- The enumerator that a line declares. -/
def enumeratorOf (r : Reader) (body : EnumBody) (line : Nat) (text : List Char) :
    Checked Enumerator := do
  let t ← EnumeratorText.read.eval text
  let site : MarkerSite := ⟨body.declared.path, line, body.comments ++ t.comment.toList, body.pending⟩
  let attributes :=
    ((r.settings.defaults.enumerators.merge body.declared.defaultEnumeratorAttributes).merge
      site.attributes).merge t.native
  let b ← r.checkedBearer site .enumerator attributes
  let displayName ← b.string? .displayName
  let opposite ← b.string? .opposite
  return {
    site.declaration t.name attributes with
    displayName := displayName.getD t.name
    access := .everyone
    value := t.value.getD body.next
    opposite := opposite.getD "" }

/-- The body with one more enumerator. -/
def addEnumerator (r : Reader) (body : EnumBody) (line : Nat) (text : List Char) :
    Checked EnumBody := do
  let e ← r.enumeratorOf body line text
  return {
    declared := { body.declared with enumerators := body.declared.enumerators ++ [e] }
    next := e.value + 1 }

end Reader

end HeaderReflection
