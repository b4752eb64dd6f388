import HeaderReflection.Source.MethodText
import HeaderReflection.Source.Reader

/-! # Method declarations

A method is declared by its text and by its attributes, which are merged and checked like those of a field.

It may claim to be the getter or the setter of a property, which is made if need be
(`Reader.claimProperties`).  A side of a property that another method of the class has claimed before cannot
be claimed again. -/

namespace HeaderReflection

namespace Reader

/-- The method of a class that a text declares. -/
def methodOf (r : Reader) (site : MarkerSite) (owner : Class) (access : Access)
    (text : List Char) : Checked Method := do
  let t ← MethodText.read.eval text
  let attributes :=
    ((r.settings.defaults.methods.merge owner.defaultMethodAttributes).merge site.attributes).merge
      t.native
  let b ← r.checkedBearer site .method attributes
  let scriptedName ← b.string? .uniqueName
  let displayName ← b.string? .displayName
  let noReturn ← b.bool .noReturn
  let noDiscard ← b.mark .noDiscard
  let script ← b.bool? .script
  return {
    site.declaration t.name attributes with
    displayName := displayName.getD t.name
    access
    returnType := t.returnType
    rawParameters := t.rawParameters
    parameters := t.parameters
    flags :=
      t.flags.insertIf noReturn .noReturn
        |>.insertIf noDiscard.isPresent .noDiscard
        |>.insertIf (script == some false) .noScript
    scriptedName }

/-- The property that a method gets, if it is a getter. -/
def getterFor? (b : Bearer) (name : String) : Checked (Option String) := do
  match ← b.string? .getterFor with
  | some p => return some p
  | none => return if (← b.bool? .propertyName) = some true then some name else none

/-- The class with a method bound to the property that it is the getter of. -/
def claimGetter (b : Bearer) (c : Class) (m : Method) : Checked Class := do
  match ← getterFor? b m.name with
  | some p => (c.bindAccessor .getter p m.link : Except Cause Class)
  | none => return c

/-- The class with a method bound to the property that it is the setter of. -/
def claimSetter (b : Bearer) (c : Class) (m : Method) : Checked Class := do
  match ← b.string? .setterFor with
  | some p =>
    if m.parameters.isEmpty then throw (Cause.setterWithoutParameter p : Fault)
    (c.bindAccessor .setter p m.link : Except Cause Class)
  | none => return c

/-- The class with a method bound to the properties that it claims. -/
def claimProperties (r : Reader) (c : Class) (m : Method) : Checked Class := do
  let b := m.bearer .method c.path r.isEnum
  claimSetter b (← claimGetter b c m) m

end Reader

end HeaderReflection
