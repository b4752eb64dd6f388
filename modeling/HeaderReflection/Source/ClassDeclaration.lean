import HeaderReflection.Source.ClassHead
import HeaderReflection.Source.Reader

/-! # Class declarations

A class is either a struct, or marked abstract or singleton, or derived from another class; any other one is
refused.

Its attributes are merged from the default bag of the settings, the list of its marker and the native
attributes in its head, and are checked as a whole before any of them is read.  Default bags for its own
members are attributes too, and may not set what is reserved for native spellings. -/

namespace HeaderReflection

namespace Reader

/-- The flags that a class has from its keyword and its attributes. -/
def classFlags (b : Bearer) (isStruct : Bool) : Checked (FlagSet ClassFlag) := do
  let isAbstract ← b.bool .abstractClass
  let isSingleton ← b.bool .singleton
  let isSerialized ← b.bool .serialize
  let isEdited ← b.bool .editor
  let isScripted ← b.bool .script
  return (FlagSet.ofList []).insertIf isStruct .struct
    |>.insertIf isStruct .declaredStruct
    |>.insertIf (isStruct || isAbstract || isSingleton) .noConstructors
    |>.insertIf (!isSerialized) .notSerializable
    |>.insertIf (!isEdited) .notEditable
    |>.insertIf (!isScripted) .notScriptable

/-- The class that a text declares. -/
def classOf (r : Reader) (site : MarkerSite) (text : List Char) : Checked Class := do
  let head ← ClassHead.read.eval text
  let attributes := (r.settings.defaults.classes.merge site.attributes).merge head.native
  let b ← r.checkedBearer site .classType attributes
  let flags ← classFlags b head.isStruct
  if !flags.has .noConstructors && head.baseClass.isEmpty then
    throw (Cause.baseRequired head.name : Fault)
  let scope ← b.string? .namespaceName
  let guid ← b.string? .guid
  let displayName ← b.string? .displayName
  let defaultFieldAttributes ← b.object .defaultFieldAttributes
  let defaultMethodAttributes ← b.object .defaultMethodAttributes
  Catalog.standard.rejectUnsettable defaultFieldAttributes
  Catalog.standard.rejectUnsettable defaultMethodAttributes
  return {
    site.declaration head.name attributes with
    displayName := displayName.getD head.name
    scope := scope.getD r.settings.defaultNamespace
    guid
    path := site.path
    baseClass := head.baseClass
    flags
    defaultFieldAttributes
    defaultMethodAttributes }

/-- The visibility behind the head of a class. -/
def initialAccess (c : Class) : Access :=
  if c.flags.has .declaredStruct then .everyone else .owner

end Reader

end HeaderReflection
