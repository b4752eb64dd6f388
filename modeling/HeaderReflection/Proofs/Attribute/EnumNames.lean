import HeaderReflection.Attribute.Bearer

/-! # Attributes and the names of enums

Some values name an enum, and whether such a value is accepted depends on the enums that are known.  While a
header is read not all of them are, so a reader has to put off just those attributes.  This module says that
it does: what a bearer answers does not depend on the enums that are known (`Bearer.knowing`), except where an
attribute that names an enum is looked up.

* Of all checks only that for a reflected enum asks for names (`Check.fault?_congr`), and only two of the
  known attributes have this check (`filter_reflectedEnum_known`).
* Looking up any other attribute answers the same whatever is known (`lookup?_knowing`, and the forms of it
  for truth values, texts and objects, which are tagged for `simp`).
* The check of a whole bag puts off the attributes that name an enum, so it answers the same as well
  (`validate_knowing`).

Reading a header asks for nothing else, so it does not depend on the headers that were read before it. -/

namespace HeaderReflection

/-! ### Checks -/

theorem Check.fault?_congr {k : Check} (hk : k ≠ .reflectedEnum) (p q : String → Bool) (v : Value) :
    k.fault? p v = k.fault? q v := by
  have htext : ∀ s, k.textFault? p s = k.textFault? q s := by
    intro s
    cases k <;> first | rfl | exact absurd rfl hk
  cases v with
  | str s => cases k <;> first | rfl | exact htext s
  | _ => cases k <;> rfl

namespace Attribute

theorem fault?_congr {a : Attribute} (ha : a.check ≠ .reflectedEnum) (p q : String → Bool)
    (k : DeclarationKind) (v : Value) : a.fault? p k v = a.fault? q k v := by
  unfold fault?
  rw [Check.fault?_congr ha p q v]

/-- The attributes that name an enum are two. -/
theorem filter_reflectedEnum_known :
    known.filter (fun a => a.check = .reflectedEnum) = [flagGetters, flags] := rfl

theorem mem_deferred_of_check {a : Attribute} (ha : a ∈ known) (hc : a.check = .reflectedEnum) :
    a ∈ Bearer.deferred := by
  have hmem : a ∈ [flagGetters, flags] := by
    rw [← filter_reflectedEnum_known]
    exact List.mem_filter.mpr ⟨ha, by simpa using hc⟩
  simp only [List.mem_cons, List.not_mem_nil, or_false] at hmem
  rcases hmem with rfl | rfl
  · exact List.mem_cons_of_mem _ List.mem_cons_self
  · exact List.mem_cons_self

end Attribute

theorem Catalog.mem_known_of_find? {key : String} {a : Attribute}
    (h : Catalog.standard.find? key = some a) : a ∈ Attribute.known :=
  List.mem_of_find?_eq_some h

namespace Bearer

/-- The bearer when other names are known as those of reflected enums. -/
def knowing (b : Bearer) (isEnum : String → Bool) : Bearer := { b with isEnum }

variable (b : Bearer) (isEnum : String → Bool)

/-! ### Single attributes -/

theorem lookup?_congr {a : Attribute} (ha : a.check ≠ .reflectedEnum) (p q : String → Bool) :
    b.lookup? p a = b.lookup? q a := by
  unfold lookup?
  simp only [Attribute.fault?_congr ha p q]

theorem lookup?_knowing {a : Attribute} (ha : a.check ≠ .reflectedEnum) :
    (b.knowing isEnum).lookup? isEnum a = b.lookup? b.isEnum a := by
  rw [b.lookup?_congr ha b.isEnum isEnum]
  rfl

@[simp] theorem bool?_knowing {a : Attribute} (ha : a.check ≠ .reflectedEnum) :
    (b.knowing isEnum).bool? a = b.bool? a :=
  congrArg (Except.map _) (b.lookup?_knowing isEnum ha)

@[simp] theorem string?_knowing {a : Attribute} (ha : a.check ≠ .reflectedEnum) :
    (b.knowing isEnum).string? a = b.string? a :=
  congrArg (Except.map _) (b.lookup?_knowing isEnum ha)

@[simp] theorem object_knowing {a : Attribute} (ha : a.check ≠ .reflectedEnum) :
    (b.knowing isEnum).object a = b.object a :=
  congrArg (Except.map _) (b.lookup?_knowing isEnum ha)

theorem lookup_knowing {a : Attribute} (ha : a.check ≠ .reflectedEnum) :
    (b.knowing isEnum).lookup isEnum a = b.lookup b.isEnum a :=
  congrArg (Except.map _) (b.lookup?_knowing isEnum ha)

@[simp] theorem bool_knowing {a : Attribute} (ha : a.check ≠ .reflectedEnum) :
    (b.knowing isEnum).bool a = b.bool a :=
  congrArg (Except.map _) (b.lookup_knowing isEnum ha)

@[simp] theorem mark_knowing {a : Attribute} (ha : a.check ≠ .reflectedEnum) :
    (b.knowing isEnum).mark a = b.mark a :=
  congrArg (Except.map _) (b.lookup_knowing isEnum ha)

/-! ### Whole bags -/

/-- An attribute that names an enum is either put off or refused for its place. -/
theorem memberFault?_congr (p q : String → Bool) (key : String) (v : Value) :
    b.memberFault? p deferred key v = b.memberFault? q deferred key v := by
  unfold memberFault?
  by_cases hv : v = .null
  · rw [if_pos hv, if_pos hv]
  · rw [if_neg hv, if_neg hv]
    cases hfind : Catalog.standard.find? key with
    | none => rfl
    | some a =>
        by_cases ha : a.check = .reflectedEnum
        · have hmem := Attribute.mem_deferred_of_check (Catalog.mem_known_of_find? hfind) ha
          by_cases happ : a.appliesTo b.kind = true
          · simp [hmem, happ]
          · simp [happ, Attribute.fault?]
        · simp only [Attribute.fault?_congr ha p q]

theorem validate_knowing : (b.knowing isEnum).validate isEnum deferred = b.validate b.isEnum deferred := by
  have hmember : ∀ m : String × Value, (b.knowing isEnum).memberFault? isEnum deferred m.1 m.2 =
      b.memberFault? b.isEnum deferred m.1 m.2 :=
    fun m => b.memberFault?_congr isEnum b.isEnum m.1 m.2
  unfold validate
  simp only [hmember]
  rfl

end Bearer

end HeaderReflection
