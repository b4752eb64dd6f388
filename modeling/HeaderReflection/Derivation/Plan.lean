import HeaderReflection.Derivation.Effect
import HeaderReflection.Derivation.FlagAccessor

/-! # The plan of a class

What deriving a class will do, in order: its own notes and the method of a singleton, then what follows from
each method, then what follows from each field.

* The plan depends on the class, on the settings and on the enums of the program, and on nothing that deriving
  changes (`Class.plan`).
* For a method, a plan makes its proxy if the class is to have one (`Class.methodPlan`).
* For a field, it makes the accessors, binds them to a property if the field is to be seen as one, and makes
  the methods for its flags (`Class.fieldPlan`).
* Where something cannot be planned, the plan goes on up to there and ends with a fault (`plannedEffects`).

Numbers are written out in the check of the size of a field, which is left to the compiler of the class, and
in the fault on a value that is no bit; one that is too long to be written is a fault of its own
(`Class.writing`). -/

namespace HeaderReflection

/-- What a plan depends on apart from the class. -/
structure PlanContext where
  settings : Settings
  /-- The reflected enum of a name. -/
  enumNamed : String → Option Enumeration

/-- Whether a name is that of a reflected enum. -/
def PlanContext.isEnum (x : PlanContext) (name : String) : Bool := (x.enumNamed name).isSome

/-- The effects that a checked computation plans; its fault becomes the last one. -/
def plannedEffects (x : Checked (List Effect)) : List Effect :=
  match x with
  | .ok es => es
  | .error f => [.fail f]

/-- A note without an icon. -/
def DocNote.plain (header contents : String) : DocNote := ⟨header, contents, false, ""⟩

/-! ### Choices of a class -/

namespace Class

/-- Whether a method can be overridden. -/
def isOverridable (m : Method) : Bool := m.flags.has .virtual && !m.flags.has .final

/-- The fault of a field that cannot be derived. -/
def fieldFault (c : Class) (f : Field) (e : Cause) : Fault := ⟨e, some c.path, f.line, 1, []⟩

/-- The attributes of the class that decide about its derivation. -/
structure Choices where
  traits : Traits
  createsProxy : Bool
  isSingleton : Bool
  isAbstract : Bool
  deriving DecidableEq, Repr

/-- The choices that the attributes of a class make. -/
def choices (x : PlanContext) (c : Class) : Checked Choices := do
  let b := c.bearer .classType c.path x.isEnum
  return ⟨← b.traits, ← b.bool .createProxy, ← b.bool .singleton, ← b.bool .abstractClass⟩

/-! ### The class and its methods -/

/-- The method that answers the instance of a singleton. -/
def singletonDraft (x : PlanContext) (c : Class) : MethodDraft where
  returnType := c.fullType ++ "&"
  name := x.settings.names.singleton
  body := "static self_type instance; return instance;"
  comment := "Returns the single instance of this class"
  flags := .ofList [.noexcept, .static, .noDiscard]

/-- What is planned for the class itself. -/
def ownerPlan (x : PlanContext) (c : Class) (h : Choices) : List Effect :=
  let overridable := c.methods.any isOverridable
  let d := singletonDraft x c
  [Effect.annotate .owner h.traits] ++
    (if overridable && !h.createsProxy then
      [Effect.note .owner (.plain "No Proxy"
        ("Even though this class has virtual methods, no proxy class will be created for it, " ++
          "which means creating runtime subclasses for it will be limited or impossible."))]
    else []) ++
    (if overridable && h.createsProxy then [Effect.raiseProxy] else []) ++
    (if h.isSingleton then
      [Effect.synthesize ⟨.owner, "SingletonGetter", c.line⟩ d,
        .note .owner (.plain "Singleton"
          ("This class is a singleton. Call " ++ d.name ++ " to get the instance."))]
    else []) ++
    (if h.isAbstract then
      [Effect.note .owner (.plain "Abstract"
        "This class is not constructible via the reflection system.")]
    else [])

/-- The proxy of a method. -/
def proxyDraft (x : PlanContext) (c : Class) (m : Method) : MethodDraft where
  returnType := m.returnType
  name := x.settings.names.proxy ++ m.name
  parameters := m.rawParameters
  body :=
    if m.flags.has .abstract then
      "throw std::runtime_error\x7b\"invalid abstract call to function " ++ c.fullType ++ "::" ++
        m.name ++ "\"\x7d;"
    else
      "return self_type::" ++ m.name ++ "(" ++
        String.intercalate ", " (m.parameters.map (·.name)) ++ ");"
  comment := "Proxy function for " ++ m.name
  flags := ((m.flags.erase .virtual).erase .abstract).insert .proxy
  forceDocument := some false

/-- What is planned for a method of a class, which may have a proxy. -/
def methodPlan (x : PlanContext) (c : Class) (proxied : Bool) (i : Nat) (m : Method) :
    Checked (List Effect) := do
  let traits ← (m.bearer .method c.path x.isEnum).traits
  let o := Origin.method i
  return [Effect.annotate o traits] ++
    (if proxied && isOverridable m then
      [Effect.synthesize ⟨o, "Proxy", m.line⟩ (proxyDraft x c m)]
    else []) ++
    (if m.flags.has .noReturn then
      [Effect.note o (.plain "Does Not Return" "This function does not return.")]
    else []) ++
    (if m.flags.has .noScript then
      [Effect.note o (.plain "Not Scriptable" "This method is not accessible via script.")]
    else [])

/-! ### Accessors -/

/-- The effects that make an accessor of a field, and bind it to the field's property if it has
one. -/
def accessorPlan (c : Class) (i : Nat) (f : Field) (role : AccessorRole) (hasProperty : Bool)
    (d : MethodDraft) (notes : List DocNote) : List Effect :=
  let s : Synthesis := ⟨.field i, role.label, f.line⟩
  [Effect.synthesize s d] ++ notes.map (Effect.note (.field i)) ++
    (if hasProperty then [Effect.bind role f.cleanName (c.synthesize s d).link f.line] else [])

/-- How the comments of accessors call the value of a field. -/
def describeValue (f : Field) : String :=
  if f.access.isPublic then "the value of the " ++ f.displayName ++ " field of this object"
  else "the value of the `" ++ f.displayName ++ "` private field of this object"

/-- How the accessors of a field name it; static ones have no object. -/
def memberText (f : Field) : String :=
  if f.flags.has .static then f.name else "this->" ++ f.name

/-- The getter of a field. -/
def getterDraft (x : PlanContext) (f : Field) : MethodDraft where
  returnType := f.type ++ " const&"
  name := x.settings.names.getter ++ f.cleanName
  body := "return " ++ memberText f ++ ";"
  comment := "Gets " ++ describeValue f
  flags :=
    (FlagSet.ofList [.noexcept, .noDiscard, if f.flags.has .static then .static else .const]).insertIf
      (f.flags.has .noScript) .noScript

/-- The setter of a field. -/
def setterDraft (x : PlanContext) (f : Field) (onChange : String) : MethodDraft where
  returnType := "void"
  name := x.settings.names.setter ++ f.cleanName
  parameters := f.type ++ " const& value"
  body := withOnChange (memberText f ++ " = value;") onChange
  comment := "Sets " ++ describeValue f
  flags := ((FlagSet.ofList []).insertIf (f.flags.has .static) .static).insertIf
    (f.flags.has .noScript) .noScript

/-- The notes that follow from the flags of a field. -/
def flagNotes (c : Class) (f : Field) : List DocNote :=
  [(FieldFlag.noUniqueAddress, DocNote.plain "No Unique Address"
      "This field has the [[no_unique_address]] attribute applied to it."),
    (.noEdit, .plain "Not Editable" "This field is not editable in the editor."),
    (.noScript, .plain "Not Scriptable" "This field is not accessible via script."),
    (.noSave, .plain "Not Saved"
      ("This field will not be serialized when saving " ++ c.name ++ ".")),
    (.noLoad, .plain "Not Loaded"
      ("This field will not be deserialized when loading " ++ c.name ++ ".")),
    (.required, .plain "Required"
      ("This field is required to be present when deserializing class " ++ c.name ++ "."))].filterMap
    fun p => if f.flags.has p.1 then some p.2 else none

/-- The effects that make the accessors of an enumerator. -/
def flagAccessorPlan (c : Class) (i : Nat) (f : Field) (e : Enumeration) (onChange : String)
    (x : Enumerator) (as : List FlagAccessor) : List Effect :=
  as.flatMap fun a =>
    let s : Synthesis := ⟨.field i, a.roleFor e x, f.line⟩
    let d := a.draft f x onChange
    [Effect.synthesize s d, .attach x.name (c.synthesize s d).link]

/-! ### Flags -/

/-- An effect for which a number is written out. -/
def writing (n : Int) (e : Effect) : Effect :=
  if Text.isWritable n then e else .fail (Cause.overlong .number : Fault)

theorem writing_eq_or (n : Int) (e : Effect) :
    writing n e = e ∨ writing n e = .fail (Cause.overlong .number : Fault) := by
  unfold writing
  split
  · exact .inl rfl
  · exact .inr rfl

theorem exists_writing_fail (n : Int) (f : Fault) : ∃ g, writing n (.fail f) = .fail g := by
  rcases writing_eq_or n (.fail f) with h | h
  · exact ⟨_, h⟩
  · exact ⟨_, h⟩

/-- The check that the type of a flag field is one of numbers, left to the compiler of the class. -/
def integralAssertion (f : Field) : String :=
  "static_assert(::std::is_integral_v<" ++ f.type ++ ">, \"Type '" ++ f.type ++ "' for field '" ++
    f.name ++ "' with flag attributes must be integral\");"

/-- The check that the type of a flag field has so many bits. -/
def sizeAssertion (f : Field) (e : Enumeration) (bits : Int) : String :=
  "static_assert(sizeof(" ++ f.type ++ ")*CHAR_BIT >= " ++ toString bits ++ ", \"Type '" ++
    f.type ++ "' for field '" ++ f.name ++
    "' is too small to hold all values of its flag type " ++ e.fullType ++ "\");"

/-- The checks of a flag field that are left to the compiler. -/
def flagAssertions (f : Field) (e : Enumeration) : List Effect :=
  .addToBody (integralAssertion f) ::
    match e.values.max? with
    | none => []
    | some v => [writing (v + 1) (.addToBody (sizeAssertion f e (v + 1)))]

/-- The warning on an enum whose bits leave gaps. -/
def gapsMessage (e : Enumeration) : String :=
  "The enumerators in the '" ++ e.fullType ++ "' enum are not consecutive, " ++
    "which may cause issues with the generated flag methods."

/-- A value that is no bit of a 64-bit word. -/
def isNoBit (v : Int) : Bool := v < 0 || 64 ≤ v

/-- The effects that make a field a set of the flags of an enum.  Without `writes`, only the
accessors that read are made. -/
def flagFieldPlan (x : PlanContext) (c : Class) (i : Nat) (f : Field) (onChange : String)
    (u : FlagUse) : List Effect :=
  let n := x.settings.names
  let e := u.enumeration
  let accessors := flagAccessorPlan c i f e onChange
  [Effect.note (.field i) (.plain "Flags"
      ("This is a bitflag field, with bits representing flags in the " ++ e.name ++
        " enum; accessor functions were generated in " ++ c.name ++ " for each flag."))] ++
    flagAssertions f e ++
    (if e.isConsecutive then []
    else
      [Effect.note (.field i) (.warning "Non-Consecutive Flags" (gapsMessage e)),
        .warn f.line (gapsMessage e)]) ++
    match e.enumerators.find? (isNoBit ·.value) with
    | some y => [writing y.value (.fail (c.fieldFault f (.flagOutOfRange y.name e.fullType y.value)))]
    | none =>
      e.enumerators.flatMap (fun y =>
        Effect.declareFlag ⟨y.name, f.name, e.fullName ++ "." ++ y.name, []⟩ ::
          accessors y (FlagAccessor.tests n u.nots y)) ++
      if u.writes then
        e.enumerators.flatMap (fun y => accessors y (FlagAccessor.setters n u.nots y)) ++
          e.enumerators.flatMap (fun y => accessors y (FlagAccessor.unsetters n y)) ++
          e.enumerators.flatMap (fun y => accessors y (FlagAccessor.togglers n y))
      else []

/-- How a field holds the flags of the enum that an attribute of it names. -/
def namedFlagUse (x : PlanContext) (c : Class) (f : Field) (v : Value) (writes nots : Bool) :
    Checked FlagUse :=
  let name := v.string?.getD ""
  match x.enumNamed name with
  | none => .error (c.fieldFault f (.enumNotReflected name))
  | some e => .ok ⟨e, writes, nots⟩

/-- How a field holds flags, if its attributes say that it does. -/
def flagUse? (x : PlanContext) (c : Class) (f : Field) : Checked (Option FlagUse) := do
  let b := f.bearer .field c.path x.isEnum
  let readable ← b.lookup? b.isEnum .flagGetters
  let writable ← b.lookup? b.isEnum .flags
  let nots ← b.bool .flagNots
  match readable, writable with
  | none, none => return none
  | some v, none => return some (← namedFlagUse x c f v false false)
  | none, some v => return some (← namedFlagUse x c f v true nots)
  | some _, some _ => throw (c.fieldFault f .flagKindsExclusive)

/-- What is planned for the flags of a field. -/
def flagPlan (x : PlanContext) (c : Class) (i : Nat) (f : Field) (onChange : String) :
    Checked (List Effect) := do
  match ← flagUse? x c f with
  | none => return []
  | some u => return flagFieldPlan x c i f onChange u

/-! ### Fields and classes -/

/-- Whether a field is seen as a property. -/
def hasProperty (x : PlanContext) (f : Field) (choice : Option Bool) : Bool :=
  (f.flags.has .declaredPrivate || x.settings.propertiesForPublicFields) &&
    !(f.flags.has .noGetter && f.flags.has .noSetter) && choice != some false

/-- What is planned for a field of a class. -/
def fieldPlan (x : PlanContext) (c : Class) (i : Nat) (f : Field) : Checked (List Effect) := do
  let b := f.bearer .field c.path x.isEnum
  let traits ← b.traits
  let isProperty := hasProperty x f (← b.bool? .propertyName)
  let onChange := (← b.string? .onChange).getD ""
  let getter := getterDraft x f
  let setter := setterDraft x f onChange
  return [Effect.annotate (.field i) traits] ++
    (if isProperty then [Effect.claimProperty f.cleanName i f.type] else []) ++
    (if f.flags.has .noGetter then []
    else
      accessorPlan c i f .getter isProperty getter [.plain "Getter"
        ("The value of this field is retrieved by the " ++ getter.name ++ " method.")]) ++
    (if f.flags.has .noSetter then []
    else
      accessorPlan c i f .setter isProperty setter
        (.plain "Setter" ("The value of this field is set by the " ++ setter.name ++ " method.") ::
        if onChange.isEmpty then []
        else
          [.plain "On Change"
            ("When this field is changed (via its setter and other such functions), " ++
              "the following code will be executed: `" ++ onChange ++ "`")])) ++
    (flagNotes c f).map (Effect.note (.field i)) ++
    plannedEffects (flagPlan x c i f onChange)

/-- What is planned for a class. -/
def plan (x : PlanContext) (c : Class) (h : Choices) : List Effect :=
  let proxied := c.flags.has .hasProxy || (c.methods.any isOverridable && h.createsProxy)
  ownerPlan x c h ++
    c.methods.zipIdx.flatMap (fun p => plannedEffects (methodPlan x c proxied p.2 p.1)) ++
    c.fields.zipIdx.flatMap (fun p => plannedEffects (fieldPlan x c p.2 p.1))

end Class

end HeaderReflection
