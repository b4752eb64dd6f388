/-! # Keyed lists

A list of pairs read as a finite map that remembers the order in which its keys first came.  Assigning to a
key that is present keeps its place, and a new key goes to the end.

* `get?` after `put` is the new value at the key and the old one elsewhere (`Keyed.get?_put`);
* `put` extends the keys by at most the new one (`Keyed.keys_put`) and never repeats a key
  (`Keyed.nodup_keys_put`);
* merging assigns the pairs of another map in turn, so keys that are new come last (`Keyed.merge`).

Attributes of a declaration, members of an object and properties of a class are such maps.  That no key
repeats is not part of the type, since the lists that are written as objects may repeat one; maps that are
built by assignments repeat none. -/

namespace HeaderReflection

/-- Pairs in the order of their keys' first assignment. -/
abbrev Keyed (α : Type) := List (String × α)

/-! ### Operations -/

namespace Keyed

variable {α β : Type}

/-- The value at `k`. -/
def get? (m : Keyed α) (k : String) : Option α := List.lookup k m

/-- Whether `k` is assigned. -/
def contains (m : Keyed α) (k : String) : Bool := m.any (·.1 == k)

/-- The keys in order. -/
def keys (m : Keyed α) : List String := m.map (·.1)

/-- Assigns `v` to `k`. -/
def put (k : String) (v : α) : Keyed α → Keyed α
  | [] => [(k, v)]
  | (j, w) :: m => if j = k then (j, v) :: m else (j, w) :: put k v m

/-- Assigns every pair of `n` in turn. -/
def merge (m n : Keyed α) : Keyed α := n.foldl (fun m p => put p.1 p.2 m) m

/-- The map that assigns the pairs of a list in turn. -/
def ofList (l : List (String × α)) : Keyed α := merge [] l

/-- Replaces the value at `k`, if there is one. -/
def modify (k : String) (f : α → α) (m : Keyed α) : Keyed α :=
  m.map fun p => if p.1 = k then (p.1, f p.2) else p

/-! ### Looking up -/

@[simp] theorem get?_nil (k : String) : get? ([] : Keyed α) k = none := rfl

theorem get?_cons (p : String × α) (m : Keyed α) (k : String) :
    get? (p :: m) k = if k = p.1 then some p.2 else get? m k := by
  by_cases h : k = p.1
  · rw [if_pos h, get?, List.lookup_cons, beq_iff_eq.mpr h]
  · rw [if_neg h, get?, List.lookup_cons, beq_eq_false_iff_ne.mpr h]
    rfl

theorem contains_iff_mem_keys (m : Keyed α) (k : String) : m.contains k = true ↔ k ∈ m.keys := by
  simp [contains, keys, List.any_eq_true]

theorem get?_eq_none_iff (m : Keyed α) (k : String) : m.get? k = none ↔ k ∉ m.keys := by
  induction m with
  | nil => simp [keys]
  | cons p m ih =>
      rw [get?_cons]
      by_cases h : k = p.1
      · simp [h, keys]
      · simp only [h, if_false, ih, keys, List.map_cons, List.mem_cons, false_or]

theorem mem_of_get?_eq_some {m : Keyed α} {k : String} {v : α} (h : m.get? k = some v) : (k, v) ∈ m := by
  induction m with
  | nil => simp at h
  | cons p m ih =>
      rw [get?_cons] at h
      split at h
      · rename_i hk
        rw [hk, ← Option.some.inj h]
        exact List.mem_cons_self
      · exact List.mem_cons_of_mem _ (ih h)

/-- A pair is found under its key if no key comes twice. -/
theorem get?_eq_some_of_mem {m : Keyed α} (hm : m.keys.Nodup) {k : String} {v : α} (h : (k, v) ∈ m) :
    m.get? k = some v := by
  induction m with
  | nil => exact absurd h List.not_mem_nil
  | cons p m ih =>
      obtain ⟨hp, hm⟩ := List.nodup_cons.mp hm
      rw [get?_cons]
      rcases List.mem_cons.mp h with rfl | h
      · exact if_pos rfl
      · have hne : k ≠ p.1 := by
          rintro rfl
          exact hp (List.mem_map.mpr ⟨(p.1, v), h, rfl⟩)
        rw [if_neg hne]
        exact ih hm h

theorem get?_append (m n : Keyed α) (k : String) : get? (m ++ n) k = (m.get? k).or (n.get? k) := by
  induction m with
  | nil => rfl
  | cons p m ih =>
      rw [List.cons_append, get?_cons, get?_cons]
      split
      · rfl
      · exact ih

/-! ### Assigning -/

/-- A new key goes to the end. -/
theorem put_of_not_mem_keys {m : Keyed α} {k : String} (h : k ∉ m.keys) (v : α) :
    m.put k v = m ++ [(k, v)] := by
  induction m with
  | nil => rfl
  | cons p m ih =>
      simp only [keys, List.map_cons, List.mem_cons, not_or] at h
      have hne : ¬p.1 = k := fun e => h.1 e.symm
      simp only [put, hne, if_false, List.cons_append]
      rw [ih h.2]

theorem get?_put (m : Keyed α) (k j : String) (v : α) :
    (m.put k v).get? j = if j = k then some v else m.get? j := by
  induction m with
  | nil => simp [put, get?_cons]
  | cons p m ih =>
      by_cases h : p.1 = k
      · by_cases hj : j = k <;> simp [put, h, get?_cons, hj]
      · by_cases hj : j = p.1
        · simp [put, h, get?_cons, hj]
        · simp [put, h, get?_cons, hj, ih]

theorem mem_of_mem_put {m : Keyed α} {k : String} {v : α} {p : String × α} (h : p ∈ m.put k v) :
    p = (k, v) ∨ p ∈ m := by
  induction m with
  | nil => exact .inl (List.mem_singleton.mp h)
  | cons q m ih =>
      simp only [put] at h
      split at h
      · rename_i hk
        rcases List.mem_cons.mp h with rfl | h
        · exact .inl (by rw [hk])
        · exact .inr (List.mem_cons_of_mem q h)
      · rcases List.mem_cons.mp h with rfl | h
        · exact .inr List.mem_cons_self
        · exact (ih h).imp_right (List.mem_cons_of_mem q)

theorem keys_put (m : Keyed α) (k : String) (v : α) :
    (m.put k v).keys = if k ∈ m.keys then m.keys else m.keys ++ [k] := by
  induction m with
  | nil => simp [put, keys]
  | cons p m ih =>
      by_cases h : p.1 = k
      · simp [put, h, keys]
      · have hk : k ≠ p.1 := fun e => h e.symm
        simp only [keys] at ih
        by_cases hm : k ∈ List.map (·.1) m
        · simp only [put, h, if_false, keys, List.map_cons, ih, hm, if_true, List.mem_cons, or_true]
        · simp only [put, h, if_false, keys, List.map_cons, ih, hm, List.mem_cons, or_false, hk,
            List.cons_append]

theorem mem_keys_put {m : Keyed α} {k j : String} {v : α} : j ∈ (m.put k v).keys ↔ j = k ∨ j ∈ m.keys := by
  rw [keys_put]
  split
  · rename_i hk
    exact ⟨.inr, fun h => h.elim (fun e => e ▸ hk) id⟩
  · rw [List.mem_append, List.mem_singleton, or_comm]

theorem nodup_keys_put {m : Keyed α} (h : m.keys.Nodup) (k : String) (v : α) :
    (m.put k v).keys.Nodup := by
  rw [keys_put]
  split
  · exact h
  · rename_i hk
    exact List.nodup_append.mpr ⟨h, by simp, by
      intro a ha b hb e
      simp only [List.mem_singleton] at hb
      exact hk (hb ▸ e ▸ ha)⟩

/-! ### Merging -/

theorem mem_keys_merge {m n : Keyed α} {k : String} : k ∈ (m.merge n).keys ↔ k ∈ m.keys ∨ k ∈ n.keys := by
  induction n generalizing m with
  | nil => simp [merge, keys]
  | cons p n ih =>
      have hput : (m.merge (p :: n)).keys = ((m.put p.1 p.2).merge n).keys := rfl
      rw [hput, ih, mem_keys_put]
      simp only [keys, List.map_cons, List.mem_cons]
      exact or_assoc.trans or_left_comm

theorem mem_of_mem_merge {m n : Keyed α} {p : String × α} (h : p ∈ m.merge n) : p ∈ m ∨ p ∈ n := by
  induction n generalizing m with
  | nil => exact .inl h
  | cons q n ih =>
      rcases ih (m := m.put q.1 q.2) h with h | h
      · exact (mem_of_mem_put h).elim (fun e => .inr (e ▸ List.mem_cons_self)) .inl
      · exact .inr (List.mem_cons_of_mem q h)

theorem mem_of_mem_ofList {l : List (String × α)} {p : String × α} (h : p ∈ ofList l) : p ∈ l :=
  (mem_of_mem_merge (m := []) h).resolve_left List.not_mem_nil

/-- A map made from a list has the keys of the list. -/
theorem mem_keys_ofList {l : List (String × α)} {k : String} : k ∈ (ofList l).keys ↔ k ∈ keys l :=
  mem_keys_merge.trans (or_iff_right List.not_mem_nil)

/-- A key of the list is a key of the map, with a value that it has in the list. -/
theorem exists_mem_ofList {l : List (String × α)} {p : String × α} (h : p ∈ l) :
    ∃ v, (p.1, v) ∈ ofList l ∧ (p.1, v) ∈ l := by
  have hkey : p.1 ∈ (ofList l).keys := mem_keys_ofList.mpr (List.mem_map_of_mem h)
  obtain ⟨⟨k, v⟩, hmem, rfl⟩ := List.mem_map.mp hkey
  exact ⟨v, hmem, mem_of_mem_ofList hmem⟩

end Keyed

end HeaderReflection
