/-! # Flags

Facts about a declaration that hold or do not, each kind of declaration having a family of its own.

A set of flags is the list of those that were raised.  Which flags it has is all that its readers see
(`FlagSet.has_insert`, `FlagSet.has_erase`), and its labels come in the order of the family, whatever the
order was in which they were raised.

Some flags are raised by words in a declaration, others by attributes, by settings, or in the course of a
derivation; a flag that takes a capability away, such as the one for a field without a getter, is lowered
again by an attribute that grants it. -/

namespace HeaderReflection

/-! ### Sets of flags -/

/-- A family of flags. -/
class FlagFamily (F : Type) where
  /-- Every flag, in the order in which they are listed. -/
  all : List F
  /-- The name of a flag. -/
  label : F → String

/-- A set of flags. -/
structure FlagSet (F : Type) where
  raised : List F := []
  deriving DecidableEq, Repr

namespace FlagSet

variable {F : Type} [DecidableEq F]

/-- Whether a flag is raised. -/
def has (s : FlagSet F) (f : F) : Bool := s.raised.contains f

/-- Raises a flag. -/
def insert (f : F) (s : FlagSet F) : FlagSet F := if s.has f then s else ⟨f :: s.raised⟩

/-- Lowers a flag. -/
def erase (f : F) (s : FlagSet F) : FlagSet F := ⟨s.raised.filter (· ≠ f)⟩

/-- Raises a flag if `b` is true. -/
def insertIf (b : Bool) (f : F) (s : FlagSet F) : FlagSet F := if b then s.insert f else s

/-- Lowers a flag if `b` is true. -/
def eraseIf (b : Bool) (f : F) (s : FlagSet F) : FlagSet F := if b then s.erase f else s

/-- The set of the listed flags. -/
def ofList (fs : List F) : FlagSet F := fs.foldl (fun s f => s.insert f) {}

/-- The names of the raised flags, in the order of the family. -/
def labels [FlagFamily F] (s : FlagSet F) : List String :=
  (FlagFamily.all.filter s.has).map FlagFamily.label

@[simp] theorem has_empty (f : F) : ({} : FlagSet F).has f = false := rfl

@[simp] theorem has_insert (s : FlagSet F) (f g : F) :
    (s.insert f).has g = (decide (g = f) || s.has g) := by
  by_cases h : g = f
  · subst h
    by_cases hs : s.has g = true <;> simp [insert, hs]
    simp [has]
  · by_cases hs : s.has f = true <;> simp [insert, hs, h]
    simp [has, h]

@[simp] theorem has_erase (s : FlagSet F) (f g : F) :
    (s.erase f).has g = (!decide (g = f) && s.has g) := by
  by_cases h : g = f <;> simp [has, erase, h]

@[simp] theorem has_insertIf (s : FlagSet F) (b : Bool) (f g : F) :
    (s.insertIf b f).has g = ((b && decide (g = f)) || s.has g) := by
  cases b <;> simp [insertIf]

@[simp] theorem has_eraseIf (s : FlagSet F) (b : Bool) (f g : F) :
    (s.eraseIf b f).has g = (!(b && decide (g = f)) && s.has g) := by
  cases b <;> simp [eraseIf]

end FlagSet

/-! ### Families -/

/-- Flags of any declaration. -/
inductive EntityFlag where
  | deprecated
  | unimplemented
  deriving DecidableEq, Repr

instance : FlagFamily EntityFlag where
  all := [.deprecated, .unimplemented]
  label
    | .deprecated => "Deprecated"
    | .unimplemented => "Unimplemented"

/-- Flags of fields. -/
inductive FieldFlag where
  | noGetter
  | noSetter
  | noEdit
  | noScript
  | noSave
  | noLoad
  | required
  | static
  | mutable
  | declaredPrivate
  | braceInitialized
  | noUniqueAddress
  deriving DecidableEq, Repr

instance : FlagFamily FieldFlag where
  all := [.noGetter, .noSetter, .noEdit, .noScript, .noSave, .noLoad, .required, .static, .mutable,
    .declaredPrivate, .braceInitialized, .noUniqueAddress]
  label
    | .noGetter => "NoGetter"
    | .noSetter => "NoSetter"
    | .noEdit => "NoEdit"
    | .noScript => "NoScript"
    | .noSave => "NoSave"
    | .noLoad => "NoLoad"
    | .required => "Required"
    | .static => "Static"
    | .mutable => "Mutable"
    | .declaredPrivate => "DeclaredPrivate"
    | .braceInitialized => "BraceInitialized"
    | .noUniqueAddress => "NoUniqueAddress"

/-- Flags of methods. -/
inductive MethodFlag where
  | inlined
  | virtual
  | static
  | const
  | noexcept
  | final
  | explicit
  | artificial
  | hasBody
  | noCallable
  | abstract
  | noDiscard
  | noReturn
  | noScript
  | proxy
  | forFlag
  deriving DecidableEq, Repr

instance : FlagFamily MethodFlag where
  all := [.inlined, .virtual, .static, .const, .noexcept, .final, .explicit, .artificial, .hasBody,
    .noCallable, .abstract, .noDiscard, .noReturn, .noScript, .proxy, .forFlag]
  label
    | .inlined => "Inline"
    | .virtual => "Virtual"
    | .static => "Static"
    | .const => "Const"
    | .noexcept => "Noexcept"
    | .final => "Final"
    | .explicit => "Explicit"
    | .artificial => "Artificial"
    | .hasBody => "HasBody"
    | .noCallable => "NoCallable"
    | .abstract => "Abstract"
    | .noDiscard => "NoDiscard"
    | .noReturn => "NoReturn"
    | .noScript => "NoScript"
    | .proxy => "Proxy"
    | .forFlag => "ForFlag"

/-- Flags of properties. -/
inductive PropertyFlag where
  | fromField
  | noEdit
  | noScript
  deriving DecidableEq, Repr

instance : FlagFamily PropertyFlag where
  all := [.fromField, .noEdit, .noScript]
  label
    | .fromField => "FromField"
    | .noEdit => "NoEdit"
    | .noScript => "NoScript"

/-- Flags of classes. -/
inductive ClassFlag where
  | struct
  | declaredStruct
  | noConstructors
  | hasProxy
  | notSerializable
  | notEditable
  | notScriptable
  deriving DecidableEq, Repr

instance : FlagFamily ClassFlag where
  all := [.struct, .declaredStruct, .noConstructors, .hasProxy, .notSerializable, .notEditable,
    .notScriptable]
  label
    | .struct => "Struct"
    | .declaredStruct => "DeclaredStruct"
    | .noConstructors => "NoConstructors"
    | .hasProxy => "HasProxy"
    | .notSerializable => "NotSerializable"
    | .notEditable => "NotEditable"
    | .notScriptable => "NotScriptable"

/-- Flags of enums. -/
inductive EnumFlag where
  | list
  | aliasType
  deriving DecidableEq, Repr

instance : FlagFamily EnumFlag where
  all := [.list, .aliasType]
  label
    | .list => "List"
    | .aliasType => "Alias"

end HeaderReflection
