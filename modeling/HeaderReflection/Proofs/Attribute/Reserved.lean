import HeaderReflection.Proofs.Attribute.NativeText

/-! # Reserved attributes

The attributes that stand for native ones are reserved: only a native spelling may set them.  A reserved
attribute has one name, and it is one of those that a spelling stands for (`isReserved_iff`).

* A bag without reserved attributes is `IsSettable`.  Just these bags pass the check of an attribute list or
  of a default bag (`isSettable_of_rejectUnsettable`, `rejectUnsettable_of_isSettable`).
* Merging such bags gives such a bag again (`IsSettable.merge`).
* If native attributes are merged in last, a reserved attribute in the result is there for a native spelling
  of it in the text that they were read from (`IsSettable.nativeBag_merge`).

Default bags are checked as lists are: those of the settings before anything of a header is read, and those
that a class or an enum sets for its members together with the class or the enum.  So all bags that a
declaration is given are settable or native. -/

namespace HeaderReflection.Attribute

open Lexer

theorem isReserved_iff {name : String} : isReserved name = true ↔ name ∈ nativeNames.map (·.2.name) := by
  constructor
  · intro h
    have hnames : ∀ a ∈ Catalog.standard.entries, a.userSettable = false →
        ∀ n ∈ a.names, n ∈ nativeNames.map (·.2.name) := by decide +kernel
    unfold isReserved at h
    split at h
    · rename_i a hfind
      have hname : name ∈ a.names := by simpa using List.find?_some hfind
      exact hnames a (List.mem_of_find?_eq_some hfind) (by simpa using h) name hname
    · exact absurd h Bool.false_ne_true
  · have hall : ∀ n ∈ nativeNames.map (·.2.name), isReserved n = true := by decide +kernel
    exact hall name

example : nativeNames.map (·.2.name) = ["NoReturn", "Deprecated", "NoDiscard", "NoUniqueAddress"] := rfl

/-! ### Bags that may be set -/

/-- No attribute in the bag is reserved for native spellings. -/
def IsSettable (bag : Bag) : Prop := ∀ k ∈ bag.keys, isReserved k = false

theorem IsSettable.merge {bag other : Bag} (h : IsSettable bag) (hother : IsSettable other) :
    IsSettable (bag.merge other) := by
  intro k hk
  rcases Keyed.mem_keys_merge.mp hk with hk | hk
  · exact h k hk
  · exact hother k hk

/-- Native attributes are the only ones in a bag that may have reserved names, if they come last. -/
theorem IsSettable.nativeBag_merge {s : List Char} {bag native : Bag} (h : IsSettable bag)
    (hnative : NativeBag s native) : NativeBag s (bag.merge native) := by
  intro k hk hreserved
  rcases Keyed.mem_keys_merge.mp hk with hk | hk
  · rw [h k hk] at hreserved
    exact absurd hreserved Bool.false_ne_true
  · exact hnative k hk hreserved

/-! ### The check -/

theorem isSettable_of_rejectUnsettable {bag : Bag} (h : Catalog.standard.rejectUnsettable bag = .ok ()) :
    IsSettable bag := by
  have hnone : Catalog.standard.unsettable bag = [] := by
    unfold Catalog.rejectUnsettable at h
    split at h
    · assumption
    · cases h
  intro k hk
  refine Bool.eq_false_iff.mpr fun hreserved => ?_
  unfold isReserved at hreserved
  split at hreserved
  · rename_i a hfind
    have ha : a ∈ Catalog.standard.entries.filter (!·.userSettable) :=
      List.mem_filter.mpr ⟨List.mem_of_find?_eq_some hfind, hreserved⟩
    have hname : k ∈ a.names := by simpa using List.find?_some hfind
    have hfree := List.filterMap_eq_nil_iff.mp hnone a ha
    have hout := List.find?_eq_none.mp hfree k hname
    exact hout ((Keyed.contains_iff_mem_keys bag k).mpr hk)
  · exact absurd hreserved Bool.false_ne_true

theorem attributeList_yields : attributeList.Yields IsSettable := by
  refine .bind (.any _) fun inside _ => ?_
  split
  · exact .throw _
  · split
    · rename_i bag _ hreject
      exact .pure (isSettable_of_rejectUnsettable hreject)
    · exact .throw _

end HeaderReflection.Attribute
