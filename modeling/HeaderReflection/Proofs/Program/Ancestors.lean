import HeaderReflection.Program.Ancestry
import Mathlib.Data.List.Nodup
import Mathlib.Data.List.Perm.Subperm

/-! # The walk over base classes

The base of a class is a text, and which class it stands for is looked up in the whole program.  So bases may
form cycles anywhere, and a class may be its own base.

* The walk upwards from a class goes from base to base as long as it reaches a class that was not met before.
  It is the only chain of this kind (`Program.IsAncestry`, `Program.ascend_eq_iff`): a base stands for at most
  one class, so there is no choice on the way.
* To see that it ends, the walk carries the classes that it may still visit (`Program.IsAscent`), of which
  there is one less with each step.
* No class is met twice, so there are fewer ancestors than classes (`Program.IsAncestry.length_lt`).

In terms of classes and names: the first ancestor is looked up as the base of the class, and each next one as
the base of the one before it (`Program.ancestors_walk`). -/

namespace HeaderReflection.Program

/-! ### Ancestry -/

variable {p : Program} {u l : List Nat} {i j : Nat}

/-- A chain of ancestors of the class at `i`: each class is the one that the base of the class before it stands for,
none is met twice, and the base of the last one stands for no class or for one that was met. -/
structure IsAncestry (p : Program) (i : Nat) (l : List Nat) : Prop where
  bases : (i :: l).IsChain fun j k => p.baseOf? j = some k
  once : (i :: l).Nodup
  ends : ∀ k, p.baseOf? (l.getLastD i) = some k → k ∈ i :: l

/-! ### Walks over what is not visited -/

/-- A chain of ancestors among the unvisited classes, up to a class whose base leads out of these. -/
structure IsAscent (p : Program) (u : List Nat) (i : Nat) (l : List Nat) : Prop where
  bases : (i :: l).IsChain fun j k => p.baseOf? j = some k
  once : l.Nodup
  unvisited : l ⊆ u
  ends : ∀ k ∈ u, p.baseOf? (l.getLastD i) = some k → k ∈ l

theorem isAscent_nil : p.IsAscent u i [] ↔ ∀ j, p.baseOf? i = some j → j ∉ u := by
  constructor
  · intro h j hj hu
    exact absurd (h.ends j hu hj) List.not_mem_nil
  · intro h
    refine ⟨.singleton i, List.nodup_nil, List.nil_subset u, fun k hu hk => ?_⟩
    exact absurd hu (h k hk)

theorem isAscent_cons (hu : u.Nodup) :
    p.IsAscent u i (j :: l) ↔ p.baseOf? i = some j ∧ j ∈ u ∧ p.IsAscent (u.erase j) j l := by
  constructor
  · intro h
    obtain ⟨hbase, hbases⟩ := List.isChain_cons_cons.mp h.bases
    obtain ⟨hj, hl⟩ := List.nodup_cons.mp h.once
    obtain ⟨hju, hlu⟩ := List.cons_subset.mp h.unvisited
    refine ⟨hbase, hju, hbases, hl, fun k hk => ?_, fun k hk hlast => ?_⟩
    · have hkj : k ≠ j := fun e => hj (e ▸ hk)
      exact (List.mem_erase_of_ne hkj).mpr (hlu hk)
    · obtain ⟨hkj, hku⟩ := hu.mem_erase_iff.mp hk
      rw [← List.getLastD_cons (a := i)] at hlast
      exact (List.mem_cons.mp (h.ends k hku hlast)).resolve_left hkj
  · rintro ⟨hbase, hju, h⟩
    have hj : j ∉ l := fun hl => hu.not_mem_erase (h.unvisited hl)
    refine ⟨List.isChain_cons_cons.mpr ⟨hbase, h.bases⟩, List.nodup_cons.mpr ⟨hj, h.once⟩, ?_, fun k hk hlast => ?_⟩
    · exact List.cons_subset.mpr ⟨hju, fun k hk => List.mem_of_mem_erase (h.unvisited hk)⟩
    · rw [List.getLastD_cons] at hlast
      by_cases hkj : k = j
      · exact hkj ▸ List.mem_cons_self
      · exact List.mem_cons_of_mem j (h.ends k ((List.mem_erase_of_ne hkj).mpr hk) hlast)

theorem ascend_eq_nil_iff : p.ascend u i = [] ↔ ∀ j, p.baseOf? i = some j → j ∉ u := by
  rw [ascend]
  cases hbase : p.baseOf? i with
  | none => simp
  | some j => simp

theorem ascend_eq_cons_iff :
    p.ascend u i = j :: l ↔ p.baseOf? i = some j ∧ j ∈ u ∧ p.ascend (u.erase j) j = l := by
  rw [ascend]
  cases hbase : p.baseOf? i with
  | none => simp
  | some k =>
      by_cases hk : k ∈ u
      · simp only [hk, if_true, List.cons.injEq, Option.some.injEq]
        constructor
        · rintro ⟨rfl, hl⟩
          exact ⟨rfl, hk, hl⟩
        · rintro ⟨rfl, -, hl⟩
          exact ⟨rfl, hl⟩
      · simp only [hk, if_false, Option.some.injEq]
        constructor
        · exact fun h => absurd h.symm (List.cons_ne_nil j l)
        · rintro ⟨rfl, hu, -⟩
          exact absurd hu hk

/-- The walk is the only one of its kind. -/
theorem ascend_eq_iff (hu : u.Nodup) : p.ascend u i = l ↔ p.IsAscent u i l := by
  induction l generalizing u i with
  | nil => rw [ascend_eq_nil_iff, isAscent_nil]
  | cons j l ih => rw [ascend_eq_cons_iff, isAscent_cons hu, ih (hu.erase j)]

/-! ### Ancestors -/

theorem lt_of_position? {name : String} (h : p.position? name = some i) : i < p.classes.length := by
  have hmem : i ∈ p.positionsNamed (anchored name) := by
    unfold position? at h
    dsimp only at h
    split at h
    · cases h
    · split at h
      · rename_i k hpositions
        rw [hpositions, Option.some.inj h]
        exact List.mem_singleton_self i
      · cases h
  obtain ⟨q, hq, rfl⟩ := List.mem_map.mp hmem
  have hposition : p.classes[q.2]? = some q.1 :=
    List.mk_mem_zipIdx_iff_getElem?.mp (List.mem_of_mem_filter hq)
  exact (List.getElem?_eq_some_iff.mp hposition).1

theorem baseOf?_eq {c : Class} (hc : p.classes[i]? = some c) : p.baseOf? i = p.position? c.baseClass := by
  unfold baseOf?
  rw [hc, Option.bind_some]

theorem lt_of_baseOf? (h : p.baseOf? i = some j) : j < p.classes.length := by
  obtain ⟨c, -, hj⟩ := Option.bind_eq_some_iff.mp h
  exact lt_of_position? hj

theorem lt_of_bases (h : (i :: l).IsChain fun j k => p.baseOf? j = some k) (hj : j ∈ l) : j < p.classes.length := by
  induction l generalizing i with
  | nil => exact absurd hj List.not_mem_nil
  | cons k l ih =>
      obtain ⟨hbase, hbases⟩ := List.isChain_cons_cons.mp h
      rcases List.mem_cons.mp hj with rfl | hj
      · exact lt_of_baseOf? hbase
      · exact ih hbases hj

/-- At the start every class but the first is unvisited. -/
theorem isAscent_start : p.IsAscent ((List.range p.classes.length).erase i) i l ↔ p.IsAncestry i l := by
  have hmem : ∀ k, k ∈ (List.range p.classes.length).erase i ↔ k ≠ i ∧ k < p.classes.length := by
    intro k
    rw [List.nodup_range.mem_erase_iff, List.mem_range]
  constructor
  · intro h
    refine ⟨h.bases, List.nodup_cons.mpr ⟨fun hi => ?_, h.once⟩, fun k hk => ?_⟩
    · exact ((hmem i).mp (h.unvisited hi)).1 rfl
    · by_cases hki : k = i
      · exact hki ▸ List.mem_cons_self
      · exact List.mem_cons_of_mem i (h.ends k ((hmem k).mpr ⟨hki, lt_of_baseOf? hk⟩) hk)
  · intro h
    obtain ⟨hi, hl⟩ := List.nodup_cons.mp h.once
    refine ⟨h.bases, hl, fun k hk => ?_, fun k hk hlast => ?_⟩
    · exact (hmem k).mpr ⟨fun e => hi (e ▸ hk), lt_of_bases h.bases hk⟩
    · exact (List.mem_cons.mp (h.ends k hlast)).resolve_left ((hmem k).mp hk).1

theorem ancestorPositions_eq_iff : p.ancestorPositions i = l ↔ p.IsAncestry i l :=
  (ascend_eq_iff (List.nodup_range.erase i)).trans isAscent_start

namespace IsAncestry

theorem length_lt (h : p.IsAncestry i l) (hi : i < p.classes.length) : l.length < p.classes.length := by
  have hsub : i :: l ⊆ List.range p.classes.length := by
    refine List.cons_subset.mpr ⟨List.mem_range.mpr hi, fun j hj => ?_⟩
    exact List.mem_range.mpr (lt_of_bases h.bases hj)
  have hlength := (List.subperm_of_subset h.once hsub).length_le
  rw [List.length_cons, List.length_range] at hlength
  omega

theorem map_some_filterMap (h : p.IsAncestry i l) :
    (l.filterMap (p.classes[·]?)).map some = l.map (p.classes[·]?) := by
  have hclasses : ∀ j ∈ l, ∃ c, p.classes[j]? = some c := fun j hj =>
    ⟨_, List.getElem?_eq_getElem (lt_of_bases h.bases hj)⟩
  clear h
  induction l with
  | nil => rfl
  | cons j l ih =>
      obtain ⟨⟨c, hc⟩, hclasses⟩ := List.forall_mem_cons.mp hclasses
      rw [List.filterMap_cons_some hc, List.map_cons, List.map_cons, hc, ih hclasses]

end IsAncestry

/-- Along the chain each class is looked up as the base of the class before it. -/
theorem isChain_findClass? {k : Class} (hk : p.classes[i]? = some k)
    (h : (i :: l).IsChain fun j k => p.baseOf? j = some k) :
    (k :: l.filterMap (p.classes[·]?)).IsChain fun c d => p.findClass? c.baseClass = some d := by
  induction l generalizing i k with
  | nil => exact .singleton k
  | cons j l ih =>
      obtain ⟨hbase, hbases⟩ := List.isChain_cons_cons.mp h
      have hd : p.classes[j]? = some _ := List.getElem?_eq_getElem (lt_of_baseOf? hbase)
      rw [List.filterMap_cons_some hd]
      refine List.isChain_cons_cons.mpr ⟨?_, ih hd hbases⟩
      unfold findClass?
      rw [← baseOf?_eq hk, hbase, Option.bind_some, hd]

/-- The ancestors of a class are a chain: the first one is looked up as the base of the class, and each next one as the
base of the one before it.  No class is met twice, so there are fewer ancestors than classes, and the chain ends only
where the base stands for no class or for one that was met.  It is the only chain that does so. -/
theorem ancestors_walk (p : Program) {i : Nat} {k : Class} (hk : p.classes[i]? = some k) :
    (∀ l, p.IsAncestry i l ↔ l = p.ancestorPositions i) ∧ (p.ancestorPositions i).length < p.classes.length ∧
      (p.ancestors i).map some = (p.ancestorPositions i).map (p.classes[·]?) ∧
      ((k :: p.ancestors i).IsChain fun c d => p.findClass? c.baseClass = some d) ∧
      ∀ j, p.position? ((p.ancestors i).getLastD k).baseClass = some j → j ∈ i :: p.ancestorPositions i := by
  have hancestry : p.IsAncestry i (p.ancestorPositions i) := ancestorPositions_eq_iff.mp rfl
  have hclasses : (p.ancestors i).map some = (p.ancestorPositions i).map (p.classes[·]?) := hancestry.map_some_filterMap
  refine ⟨fun l => ?_, ?_, hclasses, isChain_findClass? hk hancestry.bases, fun j hj => ?_⟩
  · rw [← ancestorPositions_eq_iff]
    exact eq_comm
  · exact hancestry.length_lt (List.getElem?_eq_some_iff.mp hk).1
  · have hlast : p.classes[(p.ancestorPositions i).getLastD i]? = some ((p.ancestors i).getLastD k) := by
      calc p.classes[(p.ancestorPositions i).getLastD i]?
          = ((p.ancestorPositions i).map (p.classes[·]?)).getLastD p.classes[i]? := List.getLastD_map.symm
        _ = ((p.ancestors i).map some).getLastD (some k) := by rw [hclasses, hk]
        _ = some ((p.ancestors i).getLastD k) := List.getLastD_map
    rw [← baseOf?_eq hlast] at hj
    exact hancestry.ends j hj

/-- The bases of two classes form a cycle, which the walk from a third class enters and goes round once. -/
theorem ancestors_walk_cycle :
    let p : Program := ⟨[
      { path := ⟨.relative, ["A.h"]⟩, classes := [
        { name := "Unit", baseClass := "Tank" }, { name := "Tank", baseClass := "::Game::Item" }] },
      { path := ⟨.relative, ["B.h"]⟩, classes := [{ name := "Item", scope := "Game", baseClass := " Tank" }] }]⟩
    (p.classes[0]?).isSome ∧ p.ancestorPositions 0 = [1, 2] ∧
      (p.ancestors 0).map some = [p.classes[1]?, p.classes[2]?] := by
  intro p
  have hunit : p.IsAncestry 0 [1, 2] := by
    refine ⟨by decide, by decide, fun k hk => ?_⟩
    have hbase : p.baseOf? 2 = some 1 := by decide
    obtain rfl : 1 = k := Option.some.inj (hbase.symm.trans hk)
    decide
  obtain ⟨honly, -, hclasses, -⟩ := ancestors_walk p (i := 0) rfl
  have hpositions := (honly [1, 2]).mp hunit
  refine ⟨rfl, hpositions.symm, ?_⟩
  rw [hclasses, ← hpositions]
  rfl

end HeaderReflection.Program
