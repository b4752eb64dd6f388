import HeaderReflection.Attribute.Native
import HeaderReflection.Proofs.Lexer.Yields

/-! # Layers of attributes

The attributes of a declaration come in layers: defaults of the settings, defaults of the class or enum around
it, the list of its marker, and native attributes.  The bags of the layers are merged one after the other, and
for each key the later one wins (`Keyed.get?_merge`).

This takes that the bag which is merged in has every key once, since merging assigns its members in turn.  The
bags that a reader makes are of this kind:

* members are assigned as they are read, and an assignment repeats no key (`readMembers_nodup`);
* so the list of a marker has every key once (`attributeList_nodup`);
* native attributes are put into a bag one by one, each under the name that its spelling stands for
  (`nativeAttribute_nodup`, `nativeAttributes_nodup`).

What is said here is about keys only.  An attribute with several names can stand in several layers under
different ones, and then the order of the names decides, not that of the layers. -/

namespace HeaderReflection

/-! ### Merging -/

namespace Keyed

variable {α : Type}

theorem get?_merge (m : Keyed α) {n : Keyed α} (hn : n.keys.Nodup) (k : String) :
    (m.merge n).get? k = (n.get? k).or (m.get? k) := by
  induction n generalizing m with
  | nil => rfl
  | cons p n ih =>
      obtain ⟨hp, hn⟩ := List.nodup_cons.mp hn
      refine (ih (m.put p.1 p.2) hn).trans ?_
      rw [get?_put, get?_cons]
      split
      · rename_i hk
        rw [(get?_eq_none_iff n k).mpr (hk ▸ hp)]
        rfl
      · rfl

theorem get?_merge_of_not_mem_keys (m : Keyed α) {n : Keyed α} {k : String} (hk : k ∉ n.keys) :
    (m.merge n).get? k = m.get? k := by
  induction n generalizing m with
  | nil => rfl
  | cons p n ih =>
      obtain ⟨hp, hn⟩ := not_or.mp fun h => hk (List.mem_cons.mpr h)
      refine (ih (m.put p.1 p.2) hn).trans ?_
      rw [get?_put, if_neg hp]

end Keyed

namespace Attribute

open Lexer

/-! ### Every key once -/

/-- Assigning members to a bag repeats no key. -/
theorem readMembers_nodup {closer : Option Char} {m n : Bag} {s : List Char} (hm : m.keys.Nodup)
    {rest : { r : List Char // r.length ≤ s.length }} (h : readMembers closer m s = .ok (n, rest)) :
    n.keys.Nodup := by
  unfold readMembers at h
  split at h
  · split at h
    · cases h
      exact hm
    · cases h
  · split at h
    · cases h
      exact hm
    · split at h
      · cases h
      · dsimp only at h
        split at h
        · cases h
        · rename_i k u hkey x r hassigned
          split at h
          · cases h
          · rename_i w hseparator
            split at h
            · rename_i o r' hrest
              have hshort : w.1.length < s.length := Nat.lt_of_le_of_lt w.2 r.2
              have hn := readMembers_nodup (Keyed.nodup_keys_put hm _ _) hrest
              cases h
              exact hn
            · cases h
termination_by s.length

theorem readObject_nodup {s : List Char} {m : Bag} (h : readObject s = .ok m) : m.keys.Nodup := by
  unfold readObject at h
  cases hread : readMembers none [] s with
  | error e =>
      rw [hread] at h
      cases h
  | ok x =>
      rw [hread] at h
      cases h
      exact readMembers_nodup (m := []) List.nodup_nil hread

theorem attributeList_nodup : attributeList.Yields fun bag => bag.keys.Nodup := by
  refine .bind (.any _) fun inside _ => ?_
  split
  · exact .throw _
  · rename_i bag hread
    split
    · exact .pure (readObject_nodup hread)
    · exact .throw _

theorem nativeAttribute_nodup {r : NativeRead} (hr : r.bag.keys.Nodup) :
    (nativeAttribute r).Yields fun x => x.bag.keys.Nodup := by
  have hput : ∀ (n : String) (v : Value), (r.bag.put n v).keys.Nodup := fun n v => Keyed.nodup_keys_put hr n v
  refine .bind (.any _) fun name _ => .bind (.any _) fun b _ => .ite (fun _ => .bind (.any _) fun t _ => ?_) fun _ =>
    .bind (.any _) fun v _ => .pure (hput _ v)
  split
  · exact .bind (.any _) fun v _ => .pure (hput _ v)
  · exact .throw_bind _

theorem nativeGroup_nodup {r : NativeRead} (hr : r.bag.keys.Nodup) :
    (nativeGroup r).Yields fun x => x.bag.keys.Nodup := by
  refine .iterate (fun r hr => .bind (.any _) fun _ _ => .ite (fun _ => .pure hr) fun _ => ?_) hr
  refine .bind (nativeAttribute_nodup hr) fun r hr => .bind (.any _) fun _ _ => .ite (fun _ => .pure hr) fun _ => ?_
  exact .bind (.any _) fun _ _ => .pure hr

theorem nativeAttributes_nodup : nativeAttributes.Yields fun bag => bag.keys.Nodup := by
  have hempty : (({} : NativeRead).bag).keys.Nodup := List.nodup_nil
  refine .bind (P := fun r => r.bag.keys.Nodup) (.iterate (fun r hr => .bind (.any _) fun _ _ => ?_) hempty)
    fun r hr => ?_
  · exact .ite (fun _ => .bind (nativeGroup_nodup hr) fun r hr => .pure hr) fun _ => .pure hr
  · exact .ite (fun _ => .pure hr) fun _ => .throw _

end Attribute

end HeaderReflection
