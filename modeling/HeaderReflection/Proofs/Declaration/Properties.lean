import HeaderReflection.Declaration.Accessor

/-! # The properties of a class

Properties are added to a class under their names, and whatever changes one leaves it under its name.  Where
they come from does not matter for this: a field claims a property, a marker on a method does, or a plan binds
an accessor to it.

* `Property.Belongs` says of one property that its name and its identity are those of its key, and that its
  accessors are among some given methods.
* `Class.OwnsProperties` says so of all properties of a class, and that no key repeats.
* Every change of a property keeps both: putting a property under its name (`Class.OwnsProperties.put`), and
  binding a method of the list to one of its sides (`Class.OwnsProperties.bindAccessor`).

The list of methods is a parameter, because a class is read and derived in parts: at first they are the
methods that the header declares, and later also those that a plan makes (`Class.OwnsProperties.mono`). -/

namespace HeaderReflection

/-! ### One property -/

/-- The property has the given name in a class at the given line, and its accessors are among the given
methods. -/
structure Property.Belongs (p : Property) (path : SourcePath) (line : Nat) (key : String)
    (ms : List Method) : Prop where
  name : p.name = key
  uid : p.uid = Uid.compute path line ["property", key]
  unmade : p.synthesized = []
  accessor : ∀ role l, p.accessor role = some l → ∃ m ∈ ms, m.link = l

theorem Property.Belongs.mono {p : Property} {path : SourcePath} {line : Nat} {key : String}
    {ms ns : List Method} (h : p.Belongs path line key ms) (hsub : ms ⊆ ns) : p.Belongs path line key ns :=
  ⟨h.name, h.uid, h.unmade, fun role l hl =>
    let ⟨m, hm, hlink⟩ := h.accessor role l hl
    ⟨m, hsub hm, hlink⟩⟩

/-- A bound property has no other accessors than the bound method and those that it had. -/
theorem Property.Belongs.bind {p q : Property} {path : SourcePath} {line : Nat} {key : String}
    {ms : List Method} (h : p.Belongs path line key ms) {role : AccessorRole} {m : Method}
    (hm : m ∈ ms) (hq : p.bind role m.link = .ok q) : q.Belongs path line key ms := by
  unfold Property.bind at hq
  split at hq
  · cases hq
  · obtain rfl := Except.ok.inj hq
    refine ⟨?_, ?_, ?_, fun s l hl => ?_⟩
    · cases role with
      | getter => exact h.name
      | setter => exact h.name
    · cases role with
      | getter => exact h.uid
      | setter => exact h.uid
    · cases role with
      | getter => exact h.unmade
      | setter => exact h.unmade
    · rw [Property.accessor_withAccessor] at hl
      split at hl
      · exact ⟨m, hm, Option.some.inj hl⟩
      · exact h.accessor s l hl

/-! ### The properties of a class -/

namespace Class

/-- The properties of a class stand under their names, and their accessors are among the given methods. -/
structure OwnsProperties (c : Class) (ms : List Method) : Prop where
  keys : c.properties.keys.Nodup
  belongs : ∀ q ∈ c.properties, q.2.Belongs c.path c.line q.1 ms

namespace OwnsProperties

variable {c : Class} {ms ns : List Method}

theorem nil (h : c.properties = []) : c.OwnsProperties ms := by
  refine ⟨?_, ?_⟩
  · rw [h]
    exact List.nodup_nil
  · rw [h]
    exact fun q hq => absurd hq List.not_mem_nil

theorem mono (h : c.OwnsProperties ms) (hsub : ms ⊆ ns) : c.OwnsProperties ns :=
  ⟨h.keys, fun q hq => (h.belongs q hq).mono hsub⟩

/-- A class with the same place and properties owns them as well. -/
theorem congr {d : Class} (h : c.OwnsProperties ms) (hpath : d.path = c.path) (hline : d.line = c.line)
    (hproperties : d.properties = c.properties) : d.OwnsProperties ms := by
  refine ⟨?_, ?_⟩
  · rw [hproperties]
    exact h.keys
  · rw [hproperties, hpath, hline]
    exact h.belongs

theorem property (h : c.OwnsProperties ms) (name : String) :
    (c.property name).Belongs c.path c.line name ms := by
  have hnew : (c.newProperty name).Belongs c.path c.line name ms := by
    refine ⟨rfl, rfl, rfl, fun role l hl => ?_⟩
    cases role with
    | getter => cases hl
    | setter => cases hl
  unfold Class.property
  cases hget : c.properties.get? name with
  | some p => exact h.belongs _ (Keyed.mem_of_get?_eq_some hget)
  | none => exact hnew

theorem put (h : c.OwnsProperties ms) {name : String} {p : Property}
    (hp : p.Belongs c.path c.line name ms) :
    ({ c with properties := c.properties.put name p } : Class).OwnsProperties ms := by
  refine ⟨Keyed.nodup_keys_put h.keys name p, fun q hq => ?_⟩
  rcases Keyed.mem_of_mem_put hq with rfl | hq
  · exact hp
  · exact h.belongs q hq

theorem bindAccessor (h : c.OwnsProperties ms) {role : AccessorRole} {name : String} {m : Method}
    (hm : m ∈ ms) {d : Class} (hd : c.bindAccessor role name m.link = .ok d) : d.OwnsProperties ms := by
  unfold Class.bindAccessor at hd
  cases hbind : (c.property name).bind role m.link with
  | error e => simp [hbind] at hd
  | ok p =>
      simp only [hbind, Except.ok.injEq] at hd
      subst hd
      exact h.put ((h.property name).bind hm hbind)

end OwnsProperties

end Class

end HeaderReflection
