import HeaderReflection.Declaration.Type

/-! # Accessors

A property has a getter and a setter, each bound at most once.

* A side that is taken stays as it is, and binding it again is a fault (`Property.bind_taken`).
* Binding one side leaves the other alone (`Property.accessor_bind_of_ne`).
* A property is bound in its class by its name, and added if it is not there yet (`Class.bindAccessor`). -/

namespace HeaderReflection

/-- The sides of a property. -/
inductive AccessorRole where
  | getter
  | setter
  deriving DecidableEq, Repr

/-- The name of a side. -/
def AccessorRole.label : AccessorRole → String
  | .getter => "Getter"
  | .setter => "Setter"

/-! ### Sides of a property -/

namespace Property

/-- The method bound to a side. -/
def accessor (p : Property) : AccessorRole → Option MethodLink
  | .getter => p.getter
  | .setter => p.setter

/-- The property with a method bound to a side. -/
def withAccessor (p : Property) (m : MethodLink) : AccessorRole → Property
  | .getter => { p with getter := some m }
  | .setter => { p with setter := some m }

/-- Binds a method to a side that is free. -/
def bind (p : Property) (role : AccessorRole) (m : MethodLink) : Except Cause Property :=
  match p.accessor role with
  | some taken => .error (.accessorRepeated role.label p.name taken.line)
  | none => .ok (p.withAccessor m role)

theorem accessor_withAccessor (p : Property) (m : MethodLink) (r s : AccessorRole) :
    (p.withAccessor m r).accessor s = if s = r then some m else p.accessor s := by
  cases r <;> cases s <;> rfl

/-- A side that is taken is refused. -/
theorem bind_taken {p : Property} {r : AccessorRole} {taken : MethodLink}
    (h : p.accessor r = some taken) (m : MethodLink) :
    p.bind r m = .error (.accessorRepeated r.label p.name taken.line) := by
  simp [bind, h]

/-- Binding one side leaves the other alone. -/
theorem accessor_bind_of_ne {p q : Property} {r s : AccessorRole} {m : MethodLink} (hne : s ≠ r)
    (h : p.bind r m = .ok q) : q.accessor s = p.accessor s := by
  unfold bind at h
  split at h
  · simp at h
  · simp only [Except.ok.injEq] at h
    subst h
    simp [accessor_withAccessor, hne]

end Property

namespace Class

/-- Binds a method to a side of the property with the given name, which is added if need be. -/
def bindAccessor (c : Class) (role : AccessorRole) (name : String) (m : MethodLink) :
    Except Cause Class :=
  match (c.property name).bind role m with
  | .error e => .error e
  | .ok p => .ok { c with properties := c.properties.put name p }

end Class

end HeaderReflection
