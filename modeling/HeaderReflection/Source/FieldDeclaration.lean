import HeaderReflection.Source.FieldText
import HeaderReflection.Source.Reader

/-! # Field declarations

What may be done with a field follows from its visibility, from its class, and from its attributes
(`FieldChoices.flags`).

* A field that is not public has accessors unless its class denies them; a public one has them only if the
  settings say so.
* An attribute of the field itself that grants a capability wins over everything that takes it away.
* Words in front of the type raise flags of their own. -/

namespace HeaderReflection

/-! ### Choices -/

/-- The attributes of a field that decide about its capabilities, if they are present. -/
structure FieldChoices where
  getter : Option Bool := none
  setter : Option Bool := none
  editor : Option Bool := none
  script : Option Bool := none
  saved : Option Bool := none
  loaded : Option Bool := none
  serialize : Option Bool := none
  isPrivate : Option Bool := none
  transient : Option Bool := none
  scriptPrivate : Option Bool := none
  required : Option Bool := none
  noUniqueAddress : Option Bool := none
  deriving DecidableEq, Repr

namespace FieldChoices

/-- The choices that a field's attributes make. -/
def ofBearer (b : Bearer) : Checked FieldChoices := do
  return {
    getter := ← b.bool? .getter
    setter := ← b.bool? .setter
    editor := ← b.bool? .editor
    script := ← b.bool? .script
    saved := ← b.bool? .saved
    loaded := ← b.bool? .loaded
    serialize := ← b.bool? .serialize
    isPrivate := ← b.bool? .privateField
    transient := ← b.bool? .transient
    scriptPrivate := ← b.bool? .scriptPrivate
    required := ← b.bool? .required
    noUniqueAddress := ← b.bool? .noUniqueAddress }

/-- The choice takes a capability away. -/
def denies (c : Option Bool) : Bool := c == some false

/-- The choice grants a capability. -/
def grants (c : Option Bool) : Bool := c == some true

/-- The flags of a field, from those that its text raises.  `noGetters` and `noSetters` say that its
visibility and its class deny it accessors. -/
def flags (c : FieldChoices) (noGetters noSetters : Bool) (s : FlagSet FieldFlag) :
    FlagSet FieldFlag :=
  s.insertIf (denies c.getter || noGetters) .noGetter
    |>.insertIf (denies c.setter || noSetters) .noSetter
    |>.insertIf (denies c.editor) .noEdit
    |>.insertIf (denies c.script) .noScript
    |>.insertIf (denies c.saved || denies c.serialize) .noSave
    |>.insertIf (denies c.loaded || denies c.serialize) .noLoad
    |>.insertIf (grants c.isPrivate) .noEdit
    |>.insertIf (grants c.isPrivate || grants c.transient || grants c.scriptPrivate) .noSetter
    |>.insertIf (grants c.isPrivate || grants c.scriptPrivate) .noGetter
    |>.insertIf (grants c.transient) .noSave
    |>.insertIf (grants c.transient) .noLoad
    |>.eraseIf (grants c.getter) .noGetter
    |>.eraseIf (grants c.setter) .noSetter
    |>.eraseIf (grants c.editor) .noEdit
    |>.eraseIf (grants c.saved) .noSave
    |>.eraseIf (grants c.loaded) .noLoad
    |>.insertIf (grants c.required) .required
    |>.insertIf (grants c.noUniqueAddress) .noUniqueAddress

end FieldChoices

/-! ### Fields -/

namespace Reader

/-- The field of a class that a text declares. -/
def fieldOf (r : Reader) (site : MarkerSite) (owner : Class) (access : Access)
    (text : List Char) : Checked Field := do
  let t ← FieldText.read.eval text
  let attributes :=
    ((r.settings.defaults.fields.merge owner.defaultFieldAttributes).merge site.attributes).merge
      t.native
  let b ← r.checkedBearer site .field attributes
  let displayName ← b.string? .displayName
  let loadName ← b.string? .loadName
  let saveName ← b.string? .saveName
  let choices ← FieldChoices.ofBearer b
  let ofClass := owner.bearer .classType owner.path r.isEnum
  let privateGetters ← ofClass.bool .privateGetters
  let privateSetters ← ofClass.bool .privateSetters
  let publicAccessors := r.settings.accessorsForPublicFields
  let denied (byClass : Bool) : Bool := if access.isPublic then !publicAccessors else !byClass
  let cleanName := displayNameForField t.name
  return {
    site.declaration t.name attributes with
    displayName := displayName.getD cleanName
    access
    forceDocument := if access.isPublic then none else some false
    type := t.type
    initializer := t.initializer
    flags :=
      choices.flags (denied privateGetters) (denied privateSetters)
        (t.flags.insertIf (!access.isPublic) .declaredPrivate)
    cleanName
    loadName := loadName.getD t.name
    saveName := saveName.getD t.name }

end Reader

end HeaderReflection
