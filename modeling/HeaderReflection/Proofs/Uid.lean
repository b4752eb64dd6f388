import HeaderReflection.Declaration.Type
import Mathlib.Data.List.Basic

/-! # What identifiers tell apart

A declaration is identified by a digest of a text: the path of its header, its line, and what tells it from
others for that line, with colons between them.

* The text that is digested tells its parts, as long as no colon stands where one could take it for a
  separator (`Uid.input_inj`).  A path without colons ends at the first one, a number has none, and behind it
  stands nothing, or a role without colons and a name (`Uid.IsTail`); the name may hold what it likes.
* The written form of an identifier has sixteen digits and can be read back (`Uid.hex_inj`).
* The name of a method with its identifier ends with these digits, so it tells the identifier
  (`Class.uid_eq_of_methodName_eq`), whatever names stand in front.

Nothing is assumed here of the digest itself; that it is injective on the texts of a program is an assumption
where identifiers are compared. -/

namespace HeaderReflection

namespace Uid

/-! ### Digested texts -/

/-- What stands behind the line: nothing, or what a declaration does for that line and its name. -/
inductive IsTail : List String → Prop where
  | none : IsTail []
  | role {role : String} (name : String) (hrole : ':' ∉ role.toList) : IsTail [role, name]

/-- The digested text behind the line. -/
def tailText : List String → List Char
  | [] => []
  | s :: ss => ':' :: s.toList ++ tailText ss

theorem toList_intercalate_colon (s : String) (ss : List String) :
    (String.intercalate ":" (s :: ss)).toList = s.toList ++ tailText ss := by
  induction ss generalizing s with
  | nil => simp [tailText]
  | cons t ss ih =>
      rw [String.intercalate_cons_cons, String.toList_append, String.toList_append, ih, List.append_assoc]
      rfl

theorem toList_input (path : SourcePath) (line : Nat) (extra : List String) :
    (input path line extra).toList = path.text.toList ++ ':' :: ((toString line).toList ++ tailText extra) :=
  toList_intercalate_colon path.text (toString line :: extra)

theorem not_mem_toString (n : Nat) : ':' ∉ (toString n).toList := by
  intro hmem
  rw [Nat.toString_eq_ofList_toDigits, String.toList_ofList] at hmem
  exact absurd (Nat.isDigit_of_mem_toDigits (by decide) (by decide) hmem) (by decide)

theorem toString_inj {m n : Nat} (h : (toString m).toList = (toString n).toList) : m = n := by
  have hvalue := congrArg (fun cs => Nat.ofDigitChars 10 cs 0) h
  simpa [Nat.toString_eq_ofList_toDigits] using hvalue

/-- A text ends at the first colon behind it. -/
theorem append_colon_inj {a b s t : List Char} (ha : ':' ∉ a) (hb : ':' ∉ b)
    (h : a ++ ':' :: s = b ++ ':' :: t) : a = b ∧ s = t := by
  induction a generalizing b with
  | nil =>
      cases b with
      | nil => exact ⟨rfl, (List.cons.inj h).2⟩
      | cons c b => exact absurd ((List.cons.inj h).1 ▸ List.mem_cons_self) hb
  | cons c a ih =>
      cases b with
      | nil => exact absurd ((List.cons.inj h).1 ▸ List.mem_cons_self) ha
      | cons d b =>
          obtain ⟨rfl, hrest⟩ := List.cons.inj h
          rw [List.mem_cons, not_or] at ha hb
          obtain ⟨rfl, rfl⟩ := ih ha.2 hb.2 hrest
          exact ⟨rfl, rfl⟩

/-- The line ends at the first colon behind it. -/
theorem line_tail_inj {m n : Nat} {ex fx : List String} (hex : IsTail ex) (hfx : IsTail fx)
    (h : (toString m).toList ++ tailText ex = (toString n).toList ++ tailText fx) : m = n ∧ ex = fx := by
  have hm := not_mem_toString m
  have hn := not_mem_toString n
  cases hex with
  | none =>
      cases hfx with
      | none => exact ⟨toString_inj (by simpa [tailText] using h), rfl⟩
      | role =>
          refine absurd ?_ hm
          rw [show (toString m).toList = _ from (List.append_nil _).symm.trans h]
          simp [tailText]
  | @role r a hr =>
      cases hfx with
      | none =>
          refine absurd ?_ hn
          rw [show (toString n).toList = _ from (List.append_nil _).symm.trans h.symm]
          simp [tailText]
      | @role s b hs =>
          obtain ⟨hline, htail⟩ := append_colon_inj hm hn h
          obtain ⟨hrole, hname⟩ := append_colon_inj hr hs htail
          refine ⟨toString_inj hline, ?_⟩
          have hname : a.toList = b.toList := by simpa [tailText] using hname
          rw [String.toList_inj.mp hrole, String.toList_inj.mp hname]

/-- A digested text tells the path, the line and what stands behind them. -/
theorem input_inj {p q : SourcePath} {m n : Nat} {ex fx : List String} (hp : ':' ∉ p.text.toList)
    (hq : ':' ∉ q.text.toList) (hex : IsTail ex) (hfx : IsTail fx) (h : input p m ex = input q n fx) :
    p.text = q.text ∧ m = n ∧ ex = fx := by
  have hlists := congrArg String.toList h
  rw [toList_input, toList_input] at hlists
  obtain ⟨hpath, hrest⟩ := append_colon_inj hp hq hlists
  exact ⟨String.toList_inj.mp hpath, line_tail_inj hex hfx hrest⟩

/-! ### Written identifiers -/

/-- The value of a hexadecimal digit. -/
def digitValue (c : Char) : Nat := if c.isDigit then c.toNat - '0'.toNat else c.toNat - 'a'.toNat + 10

/-- The number that hexadecimal digits write, behind those of `n`. -/
def ofDigits (n : Nat) (cs : List Char) : Nat := cs.foldl (fun n c => 16 * n + digitValue c) n

theorem digitValue_digitChar {d : Nat} (h : d < 16) : digitValue d.digitChar = d := by
  have hall : ∀ d < 16, digitValue (Nat.digitChar d) = d := by decide
  exact hall d h

theorem ofDigits_toDigits (n : Nat) : ofDigits 0 (Nat.toDigits 16 n) = n := by
  induction n using Nat.strongRecOn with
  | ind n ih =>
      by_cases hn : n < 16
      · rw [Nat.toDigits_of_lt_base hn]
        simp [ofDigits, digitValue_digitChar hn]
      · have hn : 16 ≤ n := Nat.le_of_not_lt hn
        rw [Nat.toDigits_of_base_le (by decide) hn]
        unfold ofDigits at ih ⊢
        rw [List.foldl_append, ih (n / 16) (by omega)]
        simp only [List.foldl_cons, List.foldl_nil, digitValue_digitChar (Nat.mod_lt n (by decide))]
        exact Nat.div_add_mod n 16

theorem ofDigits_zeros (k : Nat) (cs : List Char) : ofDigits 0 (List.replicate k '0' ++ cs) = ofDigits 0 cs := by
  induction k with
  | zero => rfl
  | succ k ih => exact ih

theorem length_hex (u : Uid) : (hex u).toList.length = 16 := by
  have hlength : (Nat.toDigits 16 u.toNat).length ≤ 16 :=
    (Nat.length_toDigits_le_iff (by decide) (by decide)).mpr u.toNat_lt
  unfold hex
  rw [String.toList_ofList, List.length_append, List.length_replicate]
  omega

theorem hex_inj {u v : Uid} (h : hex u = hex v) : u = v := by
  have hvalue : ∀ w : Uid, ofDigits 0 (hex w).toList = w.toNat := by
    intro w
    unfold hex
    rw [String.toList_ofList, ofDigits_zeros, ofDigits_toDigits]
  apply UInt64.toNat_inj.mp
  rw [← hvalue u, ← hvalue v, h]

end Uid

/-! ### Names with identifiers -/

namespace MethodLink

theorem uid_eq_of_append_eq {s t : String} {u v : Uid} (h : s ++ Uid.hex u = t ++ Uid.hex v) : u = v := by
  have hlists := congrArg String.toList h
  rw [String.toList_append, String.toList_append] at hlists
  have hlength : (Uid.hex u).toList.length = (Uid.hex v).toList.length := by
    rw [Uid.length_hex, Uid.length_hex]
  exact Uid.hex_inj (String.toList_inj.mp (List.append_inj' hlists hlength).2)

theorem uid_eq_of_uniqueName_eq {name name' : String} {u v : Uid} (h : uniqueName name u = uniqueName name' v) :
    u = v :=
  uid_eq_of_append_eq h

theorem uid_eq_of_fullName_eq {owner owner' separator separator' : String} {m k : MethodLink}
    (h : m.fullName owner separator = k.fullName owner' separator') : m.uid = k.uid := by
  unfold fullName uniqueName at h
  simp only [← String.append_assoc] at h
  exact uid_eq_of_append_eq h

end MethodLink

theorem Class.uid_eq_of_methodName_eq {c d : Class} {m k : Method} {separator separator' : String}
    (h : c.methodName m separator = d.methodName k separator') : m.uid = k.uid :=
  MethodLink.uid_eq_of_fullName_eq (m := m.link) (k := k.link) h

end HeaderReflection
