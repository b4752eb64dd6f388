import HeaderReflection.Derivation.Outcome
import Mathlib.Data.List.Basic
import Mathlib.Data.Option.Basic

/-! # The check of method names is exact

At the end of its derivation a class is checked for methods that scripts could not tell apart.  The check does
not compare the methods with each other; it asks an index of the class.

* The index lists, for every name, the positions of the methods that have it as name or script name
  (`Class.isIndexed_indexMethods`).  Its lists have no position twice, so their lengths count methods.
* The check finds a fault just when a script name leads to two methods, or when a name that calls find several
  methods by has one with default arguments (`Class.isSome_nameFault?_iff`).  The two halves of the check are
  treated apart, each with an arithmetic lemma on how many elements of a list satisfy a predicate.
* A class that passes has sound names (`Class.NamesSound`), and so has every class that is derived without a
  fault (`Class.nameFault?_exact`).

Indexing notes in each method the other name that it goes by.  This changes no name, so what is said of the
class before holds of the class with its index. -/

namespace HeaderReflection

/-! ### The names of one method -/

namespace Method

variable (m : Method) (n : String)

theorem mem_names : n ∈ m.names ↔ m.name = n ∨ m.givenName? = some n := by
  unfold names otherName?
  rw [List.mem_cons, Option.mem_toList, eq_comm]
  cases m.givenName? with
  | none => simp
  | some u =>
      by_cases hu : u = m.name
      · simp [hu, Option.filter_some]
      · simp [hu, Option.filter_some]

theorem nodup_names : m.names.Nodup := by
  unfold names otherName?
  cases m.givenName? with
  | none => simp
  | some u =>
      by_cases hu : u = m.name
      · simp [hu, Option.filter_some]
      · simp [hu, Option.filter_some, Ne.symm hu]

theorem dispatchName_eq : m.dispatchName = m.givenName?.getD m.name := by
  unfold dispatchName givenName?
  cases m.scriptedName with
  | none => rfl
  | some u =>
      by_cases hu : u.isEmpty
      · simp [hu, Option.filter_some]
      · simp [hu, Option.filter_some]

theorem dispatchName_mem_names : m.dispatchName ∈ m.names := by
  rw [mem_names, dispatchName_eq]
  cases m.givenName? with
  | none => exact Or.inl rfl
  | some u => exact Or.inr rfl

end Method

namespace Class

/-! ### What the check is about -/

/-- The method at a position has a name, or it has it as script name. -/
def HasName (c : Class) (i : Nat) (n : String) : Prop :=
  ∃ m, c.methods[i]? = some m ∧ (m.name = n ∨ m.givenName? = some n)

/-- The script name of a method leads to another method too. -/
def SharesScriptName (c : Class) : Prop :=
  ∃ i j : Nat, ∃ n, ∃ m : Method, c.methods[i]? = some m ∧ m.givenName? = some n ∧ j ≠ i ∧ c.HasName j n

/-- A method with default arguments is one of several that calls find by one name. -/
def OverloadsDefaults (c : Class) : Prop :=
  ∃ i j : Nat, ∃ m k : Method, c.methods[i]? = some m ∧ m.hasDefaults = true ∧ j ≠ i ∧
    c.methods[j]? = some k ∧ k.dispatchName = m.dispatchName

/-- The index lists for every name the positions of the methods that have it, in order, and no name
that no method has. -/
def IsIndexed (c : Class) : Prop :=
  ∀ n, ((c.methodsByName.get? n).getD []).Pairwise (· < ·) ∧
    (∀ i, i ∈ (c.methodsByName.get? n).getD [] ↔ c.HasName i n) ∧ c.methodsByName.get? n ≠ some []

/-- Every script name belongs to one method, of several methods that calls find by one name none has a
script name or default arguments, and the index is exact. -/
structure NamesSound (c : Class) : Prop where
  indexed : c.IsIndexed
  unique : ∀ i j : Nat, ∀ n, ∀ m : Method, c.methods[i]? = some m → m.givenName? = some n → c.HasName j n → j = i
  overloads : ∀ i j : Nat, ∀ m k : Method, c.methods[i]? = some m → c.methods[j]? = some k → j ≠ i →
    k.dispatchName = m.dispatchName → m.givenName? = none ∧ m.hasDefaults = false

/-! ### The index -/

/-- Pushing pairs of a key and a value one after the other collects, under each key, its values in
order. -/
theorem getD_foldl_push (l : List (String × Nat)) (t : Keyed (List Nat)) (n : String) :
    ((l.foldl (fun t p => t.put p.1 ((t.get? p.1).getD [] ++ [p.2])) t).get? n).getD [] =
      (t.get? n).getD [] ++ (l.filter (·.1 == n)).map (·.2) := by
  induction l generalizing t with
  | nil => simp
  | cons p l ih =>
      rw [List.foldl_cons, ih, Keyed.get?_put]
      by_cases hp : n = p.1
      · simp [hp]
      · have hp' : ¬p.1 = n := fun e => hp e.symm
        simp [hp, hp']

theorem foldl_push_ne_nil (l : List (String × Nat)) {t : Keyed (List Nat)} {n : String}
    (ht : t.get? n ≠ some []) :
    (l.foldl (fun t p => t.put p.1 ((t.get? p.1).getD [] ++ [p.2])) t).get? n ≠ some [] := by
  induction l generalizing t with
  | nil => exact ht
  | cons p l ih =>
      rw [List.foldl_cons]
      apply ih
      rw [Keyed.get?_put]
      split
      · simp
      · exact ht

theorem filter_names (m : Method) (i : Nat) (n : String) :
    ((m.names.map fun k => (k, i)).filter (·.1 == n)).map (·.2) =
      if n ∈ m.names then [i] else [] := by
  rw [List.filter_map, List.map_map]
  have hcount : m.names.filter ((·.1 == n) ∘ fun k => (k, i)) = m.names.filter (· == n) := rfl
  rw [hcount, List.filter_beq]
  by_cases hn : n ∈ m.names
  · rw [m.nodup_names.count, if_pos hn]
    simp [hn]
  · rw [List.count_eq_zero_of_not_mem hn]
    simp [hn]

theorem getD_methodIndex (ms : List Method) (n : String) :
    ((methodIndex ms).get? n).getD [] = (ms.zipIdx.filter fun p => p.1.names.contains n).map (·.2) := by
  unfold methodIndex
  rw [getD_foldl_push]
  simp only [Keyed.get?_nil, Option.getD_none, List.nil_append]
  induction ms.zipIdx with
  | nil => rfl
  | cons p ps ih =>
      rw [List.flatMap_cons, List.filter_append, List.map_append, filter_names, ih]
      by_cases hp : n ∈ p.1.names
      · simp [hp]
      · simp [hp]

theorem getElem?_indexMethods (c : Class) (i : Nat) :
    c.indexMethods.methods[i]? = (c.methods[i]?).map Method.noteOtherName :=
  List.getElem?_map

theorem hasName_indexMethods (c : Class) (i : Nat) (n : String) :
    c.indexMethods.HasName i n ↔ c.HasName i n := by
  simp [HasName, getElem?_indexMethods]

theorem sharesScriptName_indexMethods (c : Class) :
    c.indexMethods.SharesScriptName ↔ c.SharesScriptName := by
  simp [SharesScriptName, getElem?_indexMethods, hasName_indexMethods]

theorem overloadsDefaults_indexMethods (c : Class) :
    c.indexMethods.OverloadsDefaults ↔ c.OverloadsDefaults := by
  simp [OverloadsDefaults, getElem?_indexMethods]

theorem isIndexed_indexMethods (c : Class) : c.indexMethods.IsIndexed := by
  intro n
  have hindex : ((c.indexMethods.methodsByName.get? n).getD []) =
      (c.methods.zipIdx.filter fun p => p.1.names.contains n).map (·.2) := getD_methodIndex c.methods n
  refine ⟨?_, ?_, ?_⟩
  · rw [hindex]
    have hsub := (List.filter_sublist (p := fun p : Method × Nat => p.1.names.contains n)
      (l := c.methods.zipIdx)).map (·.2)
    rw [List.zipIdx_map_snd] at hsub
    exact List.Pairwise.sublist hsub List.pairwise_lt_range'
  · intro i
    rw [hindex, List.mem_map, hasName_indexMethods]
    constructor
    · rintro ⟨⟨m, j⟩, hm, rfl⟩
      obtain ⟨hm, hn⟩ := List.mem_filter.mp hm
      exact ⟨m, List.mk_mem_zipIdx_iff_getElem?.mp hm, (m.mem_names n).mp (by simpa using hn)⟩
    · rintro ⟨m, hm, hn⟩
      refine ⟨(m, i), List.mem_filter.mpr ⟨List.mk_mem_zipIdx_iff_getElem?.mpr hm, ?_⟩, rfl⟩
      simpa using (m.mem_names n).mpr hn
  · exact foldl_push_ne_nil _ (by simp)

/-! ### The check -/

/-- The test of the index by length: a script name leads to one method just when one position is listed
under it. -/
theorem one_lt_length_index_iff {c : Class} (hindex : c.IsIndexed) {i : Nat} {n : String}
    (hi : c.HasName i n) :
    1 < ((c.methodsByName.get? n).getD []).length ↔ ∃ j, j ≠ i ∧ c.HasName j n := by
  obtain ⟨hsorted, hmem, -⟩ := hindex n
  simp only [← hmem] at hi ⊢
  rcases hpos : (c.methodsByName.get? n).getD [] with _ | ⟨a, _ | ⟨b, l⟩⟩
  · simp [hpos] at hi
  · have hia : i = a := by simpa [hpos] using hi
    simp [hia]
  · rw [hpos] at hsorted
    have hab : a < b := List.rel_of_pairwise_cons hsorted List.mem_cons_self
    refine ⟨fun _ => ?_, fun _ => by simp⟩
    by_cases hia : a = i
    · exact ⟨b, by omega, by simp⟩
    · exact ⟨a, hia, by simp⟩

theorem isSome_sharedNameFault?_iff {c : Class} (hindex : c.IsIndexed) :
    c.sharedNameFault?.isSome ↔ c.SharesScriptName := by
  unfold sharedNameFault?
  rw [List.findSome?_isSome_iff]
  constructor
  · rintro ⟨⟨m, i⟩, hm, hfault⟩
    have hm := List.mk_mem_zipIdx_iff_getElem?.mp hm
    cases hn : m.givenName? with
    | none => simp [hn] at hfault
    | some n =>
        simp only [hn] at hfault
        split at hfault
        · simp at hfault
        · rename_i hlen
          have hi : c.HasName i n := ⟨m, hm, Or.inr hn⟩
          obtain ⟨j, hj, hjn⟩ := (one_lt_length_index_iff hindex hi).mp (by omega)
          exact ⟨i, j, n, m, hm, hn, hj, hjn⟩
  · rintro ⟨i, j, n, m, hm, hn, hj, hjn⟩
    refine ⟨(m, i), List.mk_mem_zipIdx_iff_getElem?.mpr hm, ?_⟩
    have hlen := (one_lt_length_index_iff hindex ⟨m, hm, Or.inr hn⟩).mpr ⟨j, hj, hjn⟩
    simp only [hn]
    rw [if_neg (by omega), Option.isSome_some]

theorem two_le_length_filter_iff {α : Type} (p : α → Bool) {l : List α} {i : Nat} {a : α}
    (hi : l[i]? = some a) (ha : p a = true) :
    2 ≤ (l.filter p).length ↔ ∃ j b, j ≠ i ∧ l[j]? = some b ∧ p b = true := by
  induction l generalizing i with
  | nil => simp at hi
  | cons b l ih =>
      cases i with
      | zero =>
          obtain rfl : b = a := by simpa using hi
          rw [List.filter_cons_of_pos ha, List.length_cons]
          constructor
          · intro hlen
            obtain ⟨k, hk⟩ := List.exists_mem_of_length_pos (by omega : 0 < (l.filter p).length)
            obtain ⟨hk, hpk⟩ := List.mem_filter.mp hk
            obtain ⟨j, hj⟩ := List.getElem?_of_mem hk
            exact ⟨j + 1, k, by omega, hj, hpk⟩
          · rintro ⟨j, k, hj, hk, hpk⟩
            obtain ⟨j, rfl⟩ := Nat.exists_eq_succ_of_ne_zero hj
            have hmem : k ∈ l.filter p := List.mem_filter.mpr ⟨List.mem_of_getElem? hk, hpk⟩
            have := List.length_pos_of_mem hmem
            omega
      | succ i =>
          have hi : l[i]? = some a := hi
          by_cases hb : p b = true
          · rw [List.filter_cons_of_pos hb, List.length_cons]
            have hmem : a ∈ l.filter p := List.mem_filter.mpr ⟨List.mem_of_getElem? hi, ha⟩
            have := List.length_pos_of_mem hmem
            exact ⟨fun _ => ⟨0, b, by omega, rfl, hb⟩, fun _ => by omega⟩
          · rw [List.filter_cons_of_neg hb, ih hi]
            constructor
            · rintro ⟨j, k, hj, hk, hpk⟩
              exact ⟨j + 1, k, by omega, hk, hpk⟩
            · rintro ⟨j, k, hj, hk, hpk⟩
              cases j with
              | zero =>
                  obtain rfl : b = k := by simpa using hk
                  exact absurd hpk hb
              | succ j => exact ⟨j, k, by omega, hk, hpk⟩

theorem two_le_length_overloads_iff {c : Class} {i : Nat} {m : Method} (hm : c.methods[i]? = some m) :
    2 ≤ (c.overloads m.dispatchName).length ↔
      ∃ j k, j ≠ i ∧ c.methods[j]? = some k ∧ k.dispatchName = m.dispatchName := by
  have htwo := two_le_length_filter_iff (·.dispatchName == m.dispatchName) hm (by simp)
  simpa [overloads] using htwo

theorem overloads_of_overloadFault? {c : Class} {f : Fault} (h : c.overloadFault? = some f) :
    ∃ i j : Nat, ∃ m k : Method, c.methods[i]? = some m ∧ m.hasDefaults = true ∧ j ≠ i ∧
      c.methods[j]? = some k ∧ k.dispatchName = m.dispatchName ∧
      f = ⟨.overloadWithDefaults m.dispatchName, some c.path, m.actualLine, 1, []⟩ := by
  obtain ⟨n, -, h⟩ := List.exists_of_findSome?_eq_some h
  dsimp only at h
  split at h
  · cases h
  · rename_i hlen
    obtain ⟨m, hfind, rfl⟩ := Option.map_eq_some_iff.mp h
    obtain ⟨hm, hn⟩ := List.mem_filter.mp (List.mem_of_find?_eq_some hfind)
    obtain ⟨i, hi⟩ := List.getElem?_of_mem hm
    obtain rfl : m.dispatchName = n := by simpa using hn
    obtain ⟨j, k, hj, hk, hkn⟩ := (two_le_length_overloads_iff hi).mp (by omega)
    exact ⟨i, j, m, k, hi, List.find?_some hfind, hj, hk, hkn, rfl⟩

theorem isSome_overloadFault?_iff (c : Class) :
    c.overloadFault?.isSome ↔ c.OverloadsDefaults := by
  constructor
  · intro hfault
    obtain ⟨f, hf⟩ := Option.isSome_iff_exists.mp hfault
    obtain ⟨i, j, m, k, hm, hdefaults, hj, hk, hkn, -⟩ := overloads_of_overloadFault? hf
    exact ⟨i, j, m, k, hm, hdefaults, hj, hk, hkn⟩
  · rintro ⟨i, j, m, k, hm, hdefaults, hj, hk, hkn⟩
    have hmem := List.mem_of_getElem? hm
    unfold overloadFault?
    rw [List.findSome?_isSome_iff]
    refine ⟨m.dispatchName, List.mem_map_of_mem hmem, ?_⟩
    have hlen := (two_le_length_overloads_iff hm).mpr ⟨j, k, hj, hk, hkn⟩
    simp only
    rw [if_neg (by omega), Option.isSome_map, List.find?_isSome]
    exact ⟨m, List.mem_filter.mpr ⟨hmem, by simp⟩, hdefaults⟩

/-- The check of the names finds a fault in the two cases, and in no other. -/
theorem isSome_nameFault?_iff {c : Class} (hindex : c.IsIndexed) :
    c.nameFault?.isSome ↔ c.SharesScriptName ∨ c.OverloadsDefaults := by
  unfold nameFault?
  rw [← isSome_sharedNameFault?_iff hindex, ← isSome_overloadFault?_iff]
  cases c.sharedNameFault? with
  | none => simp
  | some e => simp

/-- The names of an indexed class without a fault in its names are sound. -/
theorem namesSound_of_nameFault? {c : Class} (hindex : c.IsIndexed) (hfault : c.nameFault? = none) :
    c.NamesSound := by
  have hnone : ¬(c.SharesScriptName ∨ c.OverloadsDefaults) := by
    rw [← isSome_nameFault?_iff hindex, hfault]
    simp
  rw [not_or] at hnone
  obtain ⟨hshared, hoverloads⟩ := hnone
  refine ⟨hindex, ?_, ?_⟩
  · intro i j n m hm hn hj
    by_contra hne
    exact hshared ⟨i, j, n, m, hm, hn, hne, hj⟩
  · intro i j m k hm hk hne hsame
    constructor
    · cases hn : m.givenName? with
      | none => rfl
      | some n =>
          -- Calls then find the other method by `n` as well, so it has that name.
          have hkn : k.dispatchName = n := by rw [hsame, m.dispatchName_eq, hn, Option.getD_some]
          have hnames := (k.mem_names n).mp (hkn ▸ k.dispatchName_mem_names)
          exact absurd ⟨i, j, n, m, hm, hn, hne, k, hk, hnames⟩ hshared
    · by_contra hdefaults
      exact hoverloads ⟨i, j, m, k, hm, by simpa using hdefaults, hne, hk, hsame⟩

/-- The check of the names is exact.  It finds a fault just when a script name leads to another method
too, or one of several methods that calls find by one name has default arguments.  A class in which it
finds none has sound names, and so has every class that is derived without a fault. -/
theorem nameFault?_exact (c : Class) :
    (c.indexMethods.nameFault?.isSome ↔ c.SharesScriptName ∨ c.OverloadsDefaults) ∧
      (c.indexMethods.nameFault? = none → c.indexMethods.NamesSound) ∧
      ∀ x : PlanContext, (c.derive x).fault = none → (c.derive x).result.NamesSound := by
  refine ⟨?_, namesSound_of_nameFault? c.isIndexed_indexMethods, ?_⟩
  · rw [isSome_nameFault?_iff c.isIndexed_indexMethods, sharesScriptName_indexMethods, overloadsDefaults_indexMethods]
  · intro x hfault
    obtain ⟨h, w, -, -, hmember, hresult⟩ := exists_run_of_derive hfault
    have hname : (w.owner.withMade w.made).nameFault? = none := by
      unfold memberFault? at hmember
      exact ((Option.orElse_eq_none _ _).mp hmember).1
    have hsound := namesSound_of_nameFault? (isIndexed_indexMethods _) hname
    rw [hresult]
    exact ⟨hsound.indexed, hsound.unique, hsound.overloads⟩

/-- Two methods of one name and a third one with a script name of its own pass. -/
theorem nameFault?_exact_overloads :
    let c : Class :=
      { name := "Unit", methods := [{ name := "Run" }, { name := "Run", rawParameters := "int" },
        { name := "Stop", scriptedName := some "Halt" }] }
    let x : PlanContext := ⟨{}, fun _ => none⟩
    (c.indexMethods.nameFault? = none ∧ (c.derive x).fault = none) ∧
      c.indexMethods.NamesSound ∧ (c.derive x).result.NamesSound := by
  intro c x
  have hname : c.indexMethods.nameFault? = none := by decide
  have hfault : (c.derive x).fault = none := by rfl
  exact ⟨⟨hname, hfault⟩, (nameFault?_exact c).2.1 hname, (nameFault?_exact c).2.2 x hfault⟩

end Class

end HeaderReflection
