import HeaderReflection.Proofs.Attribute.EnumNames
import HeaderReflection.Proofs.Checked

/-! # Bags that passed their check

There are two ways to look at a bag.  Its check goes over the members and asks of each key which attribute it
names.  Reading an attribute goes over the names of the attribute and asks which of them the bag has.  No name
belongs to two attributes (`Catalog.find?_of_mem_names`), so both see the same attribute.

Therefore once a bag passed its check (`ValidBag`), no reading of an attribute fails unless it names an enum
(`lookup?_of_validBag`): the value that it finds stands in the bag under one of its names, and the check
accepted it there.  The attributes that name an enum are put off until all enums are known, so nothing is said
of them here.

The last section has this for each way of reading: with a default, as a truth value, as a text, and as the
mark of a declaration. -/

namespace HeaderReflection

/-! ### Names and attributes -/

theorem Catalog.find?_of_mem_names (c : Catalog) {a : Attribute} (ha : a ∈ c.entries) {name : String}
    (hname : name ∈ a.names) : c.find? name = some a := by
  have hfind : ∀ l : List Attribute, (l.flatMap (·.names)).Nodup → a ∈ l →
      l.find? (·.names.contains name) = some a := by
    intro l hl ha
    induction l with
    | nil => exact absurd ha List.not_mem_nil
    | cons b l ih =>
        obtain ⟨-, hl, hdisjoint⟩ := List.nodup_append.mp hl
        rcases List.mem_cons.mp ha with rfl | ha
        · exact List.find?_cons_of_pos (by simpa using hname)
        · have hb : name ∉ b.names := fun hmem =>
            hdisjoint name hmem name (List.mem_flatMap.mpr ⟨a, ha, hname⟩) rfl
          rw [List.find?_cons_of_neg (by simpa using hb)]
          exact ih hl ha
  exact hfind c.entries c.nodup ha

/-- Every attribute in the bag that names no enum accepts its value on declarations of the kind. -/
def ValidBag (k : DeclarationKind) (bag : Bag) : Prop :=
  ∀ m ∈ bag, m.2 ≠ .null → ∀ a, Catalog.standard.find? m.1 = some a → a.check ≠ .reflectedEnum →
    ∀ isEnum, a.fault? isEnum k m.2 = none

namespace Bearer

variable {b : Bearer}

/-- Only attributes that name an enum are put off. -/
theorem not_mem_deferred {a : Attribute} (ha : a.check ≠ .reflectedEnum) : a ∉ deferred := by
  intro hmem
  simp only [deferred, List.mem_cons, List.not_mem_nil, or_false] at hmem
  rcases hmem with rfl | rfl
  · exact ha rfl
  · exact ha rfl

theorem validBag_of_validate {isEnum : String → Bool} (h : b.validate isEnum deferred = .ok ()) :
    ValidBag b.kind b.attributes := by
  intro m hm hnull a hfind hcheck p
  have hmember : b.memberFault? isEnum deferred m.1 m.2 = none := by
    unfold validate at h
    split at h
    · rename_i hnone
      exact List.findSome?_eq_none_iff.mp hnone m hm
    · cases h
  rw [Attribute.fault?_congr hcheck p isEnum]
  simpa [memberFault?, hnull, hfind, not_mem_deferred hcheck] using hmember

/-- The value that is found for an attribute stands in the bag under one of its names. -/
theorem exists_mem_of_find? {a : Attribute} {v : Value} (h : b.find? a = some v) :
    ∃ name ∈ a.names, (name, v) ∈ b.attributes ∧ v ≠ .null := by
  obtain ⟨name, hname, h⟩ := List.exists_of_findSome?_eq_some h
  refine ⟨name, hname, ?_⟩
  split at h
  · cases h
  · cases h
  · rename_i w hnull hget
    obtain rfl := Option.some.inj h
    exact ⟨Keyed.mem_of_get?_eq_some hget, hnull⟩

theorem lookup?_of_validBag (hb : ValidBag b.kind b.attributes) {a : Attribute} (ha : a ∈ Attribute.known)
    (hcheck : a.check ≠ .reflectedEnum) (isEnum : String → Bool) : b.lookup? isEnum a = .ok (b.find? a) := by
  unfold lookup?
  cases hfind : b.find? a with
  | none => rfl
  | some v =>
      obtain ⟨name, hname, hmem, hnull⟩ := exists_mem_of_find? hfind
      have hnone := hb _ hmem hnull a (Catalog.standard.find?_of_mem_names ha hname) hcheck isEnum
      simp only [hnone]

/-! ### Readings of a valid bag -/

section Readings

variable (hb : ValidBag b.kind b.attributes) {a : Attribute} (ha : a ∈ Attribute.known)
  (hcheck : a.check ≠ .reflectedEnum)

include hb ha hcheck

theorem lookup_of_validBag (isEnum : String → Bool) :
    b.lookup isEnum a = .ok ((b.find? a).getD a.default) := by
  unfold lookup
  rw [lookup?_of_validBag hb ha hcheck]
  rfl

theorem exists_bool? : ∃ x, b.bool? a = .ok x := by
  unfold bool?
  rw [lookup?_of_validBag hb ha hcheck]
  exact ⟨_, rfl⟩

theorem exists_string? : ∃ x, b.string? a = .ok x := by
  unfold string?
  rw [lookup?_of_validBag hb ha hcheck]
  exact ⟨_, rfl⟩

theorem exists_bool : ∃ x, b.bool a = .ok x := by
  unfold bool
  rw [lookup_of_validBag hb ha hcheck]
  exact ⟨_, rfl⟩

theorem exists_mark : ∃ x, b.mark a = .ok x := by
  unfold mark
  rw [lookup_of_validBag hb ha hcheck]
  exact ⟨_, rfl⟩

end Readings

end Bearer

end HeaderReflection
