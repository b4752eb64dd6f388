import HeaderReflection.Proofs.Derivation.FlagMethods

/-! # Bits of flags

The body of a method for a flag is one statement that tests or changes a bit of the field, behind which code
may run.  What such methods do is said of the texts of their bodies: taking a text apart gives back the
operation and the number of the bit (`BitStatement.read?_append`), and with these it acts on words of 64 bits.

* An operation on one bit is told by what it does to each bit of a word (`BitOp.answer?_two_pow`,
  `BitOp.exists_result?`): it answers about the bit or changes it, and leaves the others as they are.
* Of the methods made from a field, the one with a role and a name is found in the derived class
  (`Class.flagStatement?`).  For an enumerator this is the statement of its accessor, on the bit of its own
  value (`Class.HasFlagMethods.flagStatement?`).
* So the methods for an enumerator, for its opposite and for its complement each act on the bit of the
  enumerator, the latter two the other way round (`Class.FlagsActOnBits`).

From this follows that the flags of a field are independent of each other if their values are, and that the
methods of an opposite act as those of a complement do (`Class.derive_bits`). -/

namespace HeaderReflection

open Checked

/-! ### Operations on words -/

namespace BitOp

/-- What the operation answers about a word, if it tests. -/
def answer? (b w : BitVec 64) : BitOp → Option Bool
  | .test => some (w &&& b != 0)
  | .testNot => some (w &&& b == 0)
  | .raise | .lower | .toggle => none

/-- What the operation makes of a word, if it changes the word. -/
def result? (b w : BitVec 64) : BitOp → Option (BitVec 64)
  | .test | .testNot => none
  | .raise => some (w ||| b)
  | .lower => some (w &&& ~~~b)
  | .toggle => some (w ^^^ b)

variable (w : BitVec 64) {v : Nat}

theorem ofNat_two_pow (v : Nat) : BitVec.ofNat 64 (2 ^ v) = BitVec.twoPow 64 v :=
  BitVec.eq_of_toNat_eq (by rw [BitVec.toNat_ofNat, BitVec.toNat_twoPow])

theorem and_twoPow_eq_zero (hv : v < 64) : (w &&& BitVec.twoPow 64 v == 0) = !w.getLsbD v := by
  rw [BitVec.and_twoPow]
  cases hbit : w.getLsbD v with
  | false => simp
  | true =>
      have hone : (BitVec.twoPow 64 v).getLsbD v = true := by simp [hv]
      have hne : BitVec.twoPow 64 v ≠ 0 := fun h => by simp [h] at hone
      simpa using hne

theorem answer?_two_pow (hv : v < 64) (op : BitOp) :
    op.answer? (.ofNat 64 (2 ^ v)) w =
      match op with
      | .test => some (w.getLsbD v)
      | .testNot => some (!w.getLsbD v)
      | _ => none := by
  rw [ofNat_two_pow]
  cases op with
  | test => exact congrArg some (by rw [bne, and_twoPow_eq_zero w hv, Bool.not_not])
  | testNot => exact congrArg some (and_twoPow_eq_zero w hv)
  | raise | lower | toggle => rfl

/-- An operation on a bit leaves the others as they are. -/
theorem exists_result? (hv : v < 64) {op : BitOp} (hop : op.isWrite = true) :
    ∃ r, op.result? (.ofNat 64 (2 ^ v)) w = some r ∧ (∀ j, j ≠ v → r.getLsbD j = w.getLsbD j) ∧
      r.getLsbD v =
        match op with
        | .raise => true
        | .lower => false
        | _ => !w.getLsbD v := by
  rw [ofNat_two_pow]
  have hbit : ∀ j, (BitVec.twoPow 64 v).getLsbD j = decide (v = j) := fun j => by
    simp [BitVec.getLsbD_twoPow, hv]
  cases op with
  | test | testNot => cases hop
  | raise =>
      refine ⟨_, rfl, fun j hj => ?_, ?_⟩
      · rw [BitVec.getLsbD_or, hbit, decide_eq_false (Ne.symm hj), Bool.or_false]
      · rw [BitVec.getLsbD_or, hbit, decide_eq_true rfl, Bool.or_true]
  | lower =>
      refine ⟨_, rfl, fun j hj => ?_, ?_⟩
      · rw [BitVec.getLsbD_and, BitVec.getLsbD_not, hbit, decide_eq_false (Ne.symm hj), Bool.not_false, Bool.and_true]
        cases hw : w.getLsbD j with
        | false => rfl
        | true => simp [BitVec.lt_of_getLsbD hw]
      · rw [BitVec.getLsbD_and, BitVec.getLsbD_not, hbit, decide_eq_true rfl, Bool.not_true, Bool.and_false,
          Bool.and_false]
  | toggle =>
      refine ⟨_, rfl, fun j hj => ?_, ?_⟩
      · rw [BitVec.getLsbD_xor, hbit, decide_eq_false (Ne.symm hj), Bool.xor_false]
      · rw [BitVec.getLsbD_xor, hbit, decide_eq_true rfl, Bool.xor_true]

theorem result?_toggle_toggle (b : BitVec 64) :
    (BitOp.toggle.result? b w).bind (BitOp.toggle.result? b) = some w := by
  show some (w ^^^ b ^^^ b) = some w
  rw [BitVec.xor_assoc, BitVec.xor_self, BitVec.xor_zero]

end BitOp

/-! ### Reading bodies -/

/-- A statement that tests or changes a bit of a field, and the code behind it. -/
structure BitStatement where
  op : BitOp
  /-- The number with the bit. -/
  bit : Nat
  rest : List Char

namespace BitStatement

/-- Reads a literal of a type in braces. -/
def literal? (type : String) (s : List Char) : Option (Nat × List Char) := do
  let s ← s.dropPrefix? (type ++ "\x7b").toList
  let s' ← (s.dropWhile Char.isDigit).dropPrefix? "\x7d".toList
  return (Nat.ofDigitChars 10 (s.takeWhile Char.isDigit) 0, s')

/-- Reads the first of some words that stands in front of a text. -/
def firstOf? {α : Type} (words : List (String × α)) (s : List Char) : Option (α × List Char) :=
  words.findSome? fun p => (s.dropPrefix? p.1.toList).map (p.2, ·)

/-- Reads a body that tests or changes a bit of a member. -/
def read? (member type : String) (body : List Char) : Option BitStatement :=
  match body.dropPrefix? "return (".toList with
  | some s => do
      let s ← s.dropPrefix? (member ++ " & ").toList
      let (bit, s) ← literal? type s
      let (op, rest) ← firstOf? [(") != 0;", .test), (") == 0;", .testNot)] s
      return ⟨op, bit, rest⟩
  | none => do
      let s ← body.dropPrefix? member.toList
      let (op, s) ← firstOf? [(" |= ", .raise), (" &= ~", .lower), (" ^= ", .toggle)] s
      let (bit, s) ← literal? type s
      let rest ← s.dropPrefix? ";".toList
      return ⟨op, bit, rest⟩

/-- What the statement answers about a word, if it tests. -/
def answer? (s : BitStatement) (w : BitVec 64) : Option Bool := s.op.answer? (.ofNat 64 s.bit) w

/-- What the statement makes of a word, if it changes the word. -/
def result? (s : BitStatement) (w : BitVec 64) : Option (BitVec 64) := s.op.result? (.ofNat 64 s.bit) w

theorem dropPrefix?_append (p s : List Char) : (p ++ s).dropPrefix? p = some s :=
  List.dropPrefix?_append_of_beq s (beq_self_eq_true p)

theorem firstOf?_cons_append {α : Type} (word : String) (a : α) (words : List (String × α)) (s : List Char) :
    firstOf? ((word, a) :: words) (word.toList ++ s) = some (a, s) := by
  unfold firstOf?
  rw [List.findSome?_cons, dropPrefix?_append]
  rfl

theorem firstOf?_cons_of_none {α : Type} {word : String} {a : α} {words : List (String × α)} {s : List Char}
    (h : s.dropPrefix? word.toList = none) : firstOf? ((word, a) :: words) s = firstOf? words s := by
  unfold firstOf?
  rw [List.findSome?_cons, h]
  rfl

/-- A literal of a number is read back. -/
theorem literal?_append (type : String) (v : Nat) (s : List Char) :
    literal? type ((FlagAccessor.bitLiteral type v).toList ++ s) = some (2 ^ v, s) := by
  have hdigits : ∀ c ∈ Nat.toDigits 10 (2 ^ v), c.isDigit = true := fun c hc =>
    Nat.isDigit_of_mem_toDigits (by decide) (by decide) hc
  have htext : (FlagAccessor.bitLiteral type v).toList ++ s =
      (type ++ "\x7b").toList ++ (Nat.toDigits 10 (2 ^ v) ++ ("\x7d".toList ++ s)) := by
    unfold FlagAccessor.bitLiteral
    rw [String.toList_append, String.toList_append, Nat.toString_eq_ofList_toDigits, String.toList_ofList]
    simp only [List.append_assoc]
    rfl
  unfold literal?
  rw [htext, dropPrefix?_append]
  simp only [Option.bind_eq_bind, Option.bind_some]
  have hstop : List.dropWhile Char.isDigit ("\x7d".toList ++ s) = "\x7d".toList ++ s := rfl
  have hnone : List.takeWhile Char.isDigit ("\x7d".toList ++ s) = [] := rfl
  rw [List.takeWhile_append_of_pos hdigits, List.dropWhile_append_of_pos hdigits, hstop, hnone, List.append_nil,
    dropPrefix?_append, Nat.ofDigitChars_ten_toDigits]
  rfl

variable (name type : String) (v : Nat) (rest : String)

theorem read?_test {op : BitOp} {word : String}
    (hop : ∀ s, firstOf? [(") != 0;", .test), (") == 0;", .testNot)] (word.toList ++ s) = some (op, s)) :
    read? ("this->" ++ name) type
        ("return (this->" ++ name ++ " & " ++ FlagAccessor.bitLiteral type v ++ word ++ rest).toList =
      some ⟨op, 2 ^ v, rest.toList⟩ := by
  have htext : ("return (this->" ++ name ++ " & " ++ FlagAccessor.bitLiteral type v ++ word ++ rest).toList =
      "return (".toList ++ (("this->" ++ name ++ " & ").toList ++
        ((FlagAccessor.bitLiteral type v).toList ++ (word.toList ++ rest.toList))) := by
    simp only [String.toList_append, List.append_assoc]
    rfl
  unfold read?
  rw [htext, dropPrefix?_append]
  simp only [dropPrefix?_append, literal?_append, hop, Option.bind_eq_bind, Option.bind_some]
  rfl

theorem read?_write {op : BitOp} {word : String}
    (hop : ∀ s, firstOf? [(" |= ", .raise), (" &= ~", .lower), (" ^= ", .toggle)] (word.toList ++ s) = some (op, s)) :
    read? ("this->" ++ name) type
        ("this->" ++ name ++ word ++ FlagAccessor.bitLiteral type v ++ ";" ++ rest).toList =
      some ⟨op, 2 ^ v, rest.toList⟩ := by
  have htext : ("this->" ++ name ++ word ++ FlagAccessor.bitLiteral type v ++ ";" ++ rest).toList =
      ("this->" ++ name).toList ++ (word.toList ++
        ((FlagAccessor.bitLiteral type v).toList ++ (";".toList ++ rest.toList))) := by
    simp only [String.toList_append, List.append_assoc]
  have hnoTest : ∀ s : List Char, (("this->" ++ name).toList ++ s).dropPrefix? "return (".toList = none := by
    intro s
    rw [String.toList_append]
    rfl
  unfold read?
  rw [htext, hnoTest]
  simp only [dropPrefix?_append, literal?_append, hop, Option.bind_eq_bind, Option.bind_some]
  rfl

/-- The statement of an operation is read back, with the code behind it. -/
theorem read?_append (op : BitOp) :
    read? ("this->" ++ name) type (op.statement name (FlagAccessor.bitLiteral type v) ++ rest).toList =
      some ⟨op, 2 ^ v, rest.toList⟩ := by
  cases op with
  | test => exact read?_test name type v rest fun s => firstOf?_cons_append _ _ _ s
  | testNot =>
      refine read?_test name type v rest fun s => ?_
      rw [firstOf?_cons_of_none rfl, firstOf?_cons_append]
  | raise => exact read?_write name type v rest fun s => firstOf?_cons_append _ _ _ s
  | lower =>
      refine read?_write name type v rest fun s => ?_
      rw [firstOf?_cons_of_none rfl, firstOf?_cons_append]
  | toggle =>
      refine read?_write name type v rest fun s => ?_
      rw [firstOf?_cons_of_none rfl, firstOf?_cons_of_none rfl, firstOf?_cons_append]

end BitStatement

/-! ### The methods of a class -/

/-- The tests and changes of words that some methods for a flag perform, where there are such methods. -/
structure FlagActions where
  test : BitVec 64 → Option Bool
  set : BitVec 64 → Option (BitVec 64)
  unset : BitVec 64 → Option (BitVec 64)
  toggle : BitVec 64 → Option (BitVec 64)

namespace Class

/-- The statement of the method with a role and a name among those made from a field. -/
def flagStatement? (d : Class) (i : Nat) (f : Field) (role name : String) : Option BitStatement :=
  (d.methods.find? fun m => m.key? = some (.field i, role) && m.name = name).bind fun m =>
    BitStatement.read? ("this->" ++ f.name) f.type m.body.toList

/-- The actions of the methods of one kind for an enumerator, with a name behind their verbs. -/
def actions (d : Class) (n : NameParts) (i : Nat) (f : Field) (e : Enumeration) (y : Enumerator)
    (kind name : String) : FlagActions :=
  let statement? (verb start : String) :=
    d.flagStatement? i f (kind ++ verb ++ "." ++ e.fullName ++ "." ++ y.name) (start ++ name)
  { test := fun w => (statement? "Getter" n.test).bind (·.answer? w)
    set := fun w => (statement? "Setter" n.setter).bind (·.result? w)
    unset := fun w => (statement? "Unsetter" n.unset).bind (·.result? w)
    toggle := fun w => (statement? "Toggler" n.toggle).bind (·.result? w) }

variable (d : Class) (n : NameParts) (i : Nat) (f : Field) (e : Enumeration) (y : Enumerator)

/-- The actions of the methods for an enumerator. -/
def flagActions : FlagActions := d.actions n i f e y "Flag" y.name

/-- The actions of the methods for the opposite of an enumerator. -/
def oppositeActions : FlagActions := d.actions n i f e y "FlagOpposite" y.opposite

/-- The actions of the methods that test and set the complement of an enumerator. -/
def complementActions : FlagActions :=
  d.actions { n with test := n.testNot, setter := n.setNot } i f e y "FlagOpposite" y.name

end Class

/-- What some methods for a flag do to words: they test, set, unset and toggle a bit, the last three only if flags are
written.  A change of the bit changes no test of the others, and toggling twice restores the word. -/
structure FlagActions.ActsOnBit (a : FlagActions) (writes : Bool) (others : List FlagActions) : Prop where
  test : ∀ w, ∃ b, a.test w = some b
  set : writes = true → ∀ w, ∃ r, a.set w = some r ∧ a.test r = some true ∧ ∀ o ∈ others, o.test r = o.test w
  unset : writes = true → ∀ w, ∃ r, a.unset w = some r ∧ a.test r = some false ∧ ∀ o ∈ others, o.test r = o.test w
  toggle : writes = true → ∀ w, ∃ r, a.toggle w = some r ∧ a.test r = (a.test w).map (!·) ∧ a.toggle r = some w ∧
    ∀ o ∈ others, o.test r = o.test w

theorem FlagActions.actsOnBit {a : FlagActions} {writes : Bool} {others : List FlagActions} {v : Nat} (hv : v < 64)
    (htest : ∀ w, a.test w = BitOp.test.answer? (.ofNat 64 (2 ^ v)) w)
    (hwrite : writes = true → ∀ w, a.set w = BitOp.raise.result? (.ofNat 64 (2 ^ v)) w ∧
      a.unset w = BitOp.lower.result? (.ofNat 64 (2 ^ v)) w ∧ a.toggle w = BitOp.toggle.result? (.ofNat 64 (2 ^ v)) w)
    (hothers : ∀ o ∈ others, ∃ j, j ≠ v ∧ ∀ w, o.test w = some (w.getLsbD j)) : a.ActsOnBit writes others := by
  have hbit : ∀ w, a.test w = some (w.getLsbD v) := fun w => (htest w).trans (BitOp.answer?_two_pow w hv .test)
  have hkeeps : ∀ {r w : BitVec 64}, (∀ j, j ≠ v → r.getLsbD j = w.getLsbD j) → ∀ o ∈ others, o.test r = o.test w := by
    intro r w hr o ho
    obtain ⟨j, hj, htest⟩ := hothers o ho
    rw [htest, htest, hr j hj]
  refine ⟨fun w => ⟨_, hbit w⟩, fun hwrites w => ?_, fun hwrites w => ?_, fun hwrites w => ?_⟩
  · obtain ⟨r, hr, hrest, hown⟩ := BitOp.exists_result? w hv (show BitOp.raise.isWrite = true from rfl)
    exact ⟨r, (hwrite hwrites w).1.trans hr, by rw [hbit, hown], hkeeps hrest⟩
  · obtain ⟨r, hr, hrest, hown⟩ := BitOp.exists_result? w hv (show BitOp.lower.isWrite = true from rfl)
    exact ⟨r, (hwrite hwrites w).2.1.trans hr, by rw [hbit, hown], hkeeps hrest⟩
  · obtain ⟨r, hr, hrest, hown⟩ := BitOp.exists_result? w hv (show BitOp.toggle.isWrite = true from rfl)
    have htwice := BitOp.result?_toggle_toggle w (.ofNat 64 (2 ^ v))
    rw [hr, Option.bind_some] at htwice
    refine ⟨r, (hwrite hwrites w).2.2.trans hr, ?_, (hwrite hwrites r).2.2.trans htwice, hkeeps hrest⟩
    rw [hbit, hbit, hown]
    rfl

/-- How the methods made from a field that holds flags act on words. -/
structure Class.FlagsActOnBits (d : Class) (n : NameParts) (i : Nat) (f : Field) (u : FlagUse) : Prop where
  /-- Every method for a flag is an accessor of the enumerator in its role.  It is a statement on the bit of this
  enumerator, and only behind a change code runs. -/
  literal : ∀ m ∈ d.methods, m.isForFlagOf i = true →
    ∃ y ∈ u.enumeration.enumerators, ∃ a ∈ u.accessors n y, ∃ s,
      m.key? = some (.field i, a.roleFor u.enumeration y) ∧ m.name = a.name ∧
        BitStatement.read? ("this->" ++ f.name) f.type m.body.toList = some s ∧
        s.op = a.op ∧ 0 ≤ y.value ∧ s.bit = 2 ^ y.value.toNat ∧ s.bit < 2 ^ 64 ∧
        s.rest = (if s.op.isWrite then f.changeCode else "").toList
  /-- The role of an accessor of an enumerator determines the bit, which is that of the enumerator. -/
  bit : ∀ y ∈ u.enumeration.enumerators, ∀ a ∈ u.accessors n y, ∀ m ∈ d.methods,
    m.key? = some (.field i, a.roleFor u.enumeration y) →
      (BitStatement.read? ("this->" ++ f.name) f.type m.body.toList).map (·.bit) = some (2 ^ y.value.toNat)
  setter : ∀ m ∈ d.methods, m.key? = some (.field i, "Setter") →
    m.body = Class.memberText f ++ " = value;" ++ f.changeCode
  getter : ∀ m ∈ d.methods, m.key? = some (.field i, "Getter") → m.body = "return " ++ Class.memberText f ++ ";"
  bits : ∀ y ∈ u.enumeration.enumerators, (d.flagActions n i f u.enumeration y).ActsOnBit u.writes
    ((u.enumeration.enumerators.filter (·.value ≠ y.value)).map (d.flagActions n i f u.enumeration))
  opposite : ∀ y ∈ u.enumeration.enumerators, y.opposite ≠ "" → ∀ w,
    (d.oppositeActions n i f u.enumeration y).test w = ((d.flagActions n i f u.enumeration y).test w).map (!·)
  opposites : u.writes = true → ∀ y ∈ u.enumeration.enumerators, y.opposite ≠ "" → ∀ w,
    (d.oppositeActions n i f u.enumeration y).set w = (d.flagActions n i f u.enumeration y).unset w ∧
      (d.oppositeActions n i f u.enumeration y).unset w = (d.flagActions n i f u.enumeration y).set w ∧
      (d.oppositeActions n i f u.enumeration y).toggle w = (d.flagActions n i f u.enumeration y).toggle w
  complement : u.nots = true → ∀ y ∈ u.enumeration.enumerators, y.opposite = "" → ∀ w,
    (d.complementActions n i f u.enumeration y).test w =
        ((d.flagActions n i f u.enumeration y).test w).map (!·) ∧
      (d.complementActions n i f u.enumeration y).set w = (d.flagActions n i f u.enumeration y).unset w

theorem find?_eq_some_of_unique {α : Type} {p : α → Bool} {l : List α} {a : α} (ha : a ∈ l) (hp : p a = true)
    (hunique : ∀ b ∈ l, p b = true → b = a) : l.find? p = some a := by
  obtain ⟨b, hb⟩ := Option.isSome_iff_exists.mp (List.find?_isSome.mpr ⟨a, ha, hp⟩)
  rw [hb, hunique b (List.mem_of_find?_eq_some hb) (List.find?_some hb)]

/-! ### The methods that a field is given -/

namespace Class

variable {x : PlanContext} {c d : Class} {i : Nat} {f : Field} {u : FlagUse} {ms : List Method}

/-- The methods of a derived class that are made from a field that holds flags. -/
structure HasFlagMethods (d : Class) (x : PlanContext) (c : Class) (i : Nat) (f : Field) (u : FlagUse)
    (ms : List Method) : Prop where
  filter : d.methods.filter (·.isMadeFromField i) = ms
  methods : fieldMethods x c i f = .ok ms
  keys : (ms.map Method.key?).Nodup
  uses : c.flagUse? x f = .ok (some u)

theorem HasFlagMethods.find? (h : d.HasFlagMethods x c i f u ms) {m : Method} (hm : m ∈ ms) {role : String}
    (hkey : m.key? = some (.field i, role)) :
    (d.methods.find? fun k => k.key? = some (.field i, role) && k.name = m.name) = some m := by
  have hmem : ∀ k, k ∈ ms ↔ k ∈ d.methods ∧ k.isMadeFromField i = true := fun k => by
    rw [← h.filter, List.mem_filter]
  refine find?_eq_some_of_unique ((hmem m).mp hm).1 (by simp [hkey]) fun k hk hp => ?_
  have hkkey : k.key? = some (.field i, role) := of_decide_eq_true (Bool.and_eq_true_iff.mp hp).1
  have hkms : k ∈ ms := (hmem k).mpr ⟨hk, k.isMadeFromField_of_key hkkey⟩
  exact List.inj_on_of_nodup_map h.keys hkms hm (hkkey.trans hkey.symm)

theorem read?_flagMethod (i : Nat) (f : Field) (e : Enumeration) (y : Enumerator) (a : FlagAccessor) :
    BitStatement.read? ("this->" ++ f.name) f.type (flagMethod c i f f.onChange e y a).body.toList =
      some ⟨a.op, 2 ^ y.value.toNat, (if a.op.isWrite then f.changeCode else "").toList⟩ := by
  rw [← BitStatement.read?_append, body_flagMethod]

theorem HasFlagMethods.flagMethod_mem (h : d.HasFlagMethods x c i f u ms) {y : Enumerator}
    (hy : y ∈ u.enumeration.enumerators) {a : FlagAccessor} (ha : a ∈ u.accessors x.settings.names y) :
    flagMethod c i f f.onChange u.enumeration y a ∈ ms := by
  obtain ⟨o, ho, hms⟩ := fieldMethods_yields x c i f ms h.methods
  obtain rfl : some u = o := Except.ok.inj (h.uses.symm.trans ho)
  rw [hms, Option.toList_some, List.flatMap_singleton]
  refine List.mem_append_right _ ((flagMethods_perm x c i f f.onChange u).mem_iff.mpr ?_)
  exact List.mem_flatMap.mpr ⟨y, hy, List.mem_map_of_mem ha⟩

theorem HasFlagMethods.eq_of_key (h : d.HasFlagMethods x c i f u ms) {y : Enumerator}
    (hy : y ∈ u.enumeration.enumerators) {a : FlagAccessor} (ha : a ∈ u.accessors x.settings.names y) {m : Method}
    (hm : m ∈ ms) (hkey : m.key? = some (.field i, a.roleFor u.enumeration y)) :
    m = flagMethod c i f f.onChange u.enumeration y a :=
  List.inj_on_of_nodup_map h.keys hm (h.flagMethod_mem hy ha) hkey

/-- The accessors of an enumerator are found in the derived class, by their roles and names. -/
theorem HasFlagMethods.flagStatement? (h : d.HasFlagMethods x c i f u ms) {y : Enumerator}
    (hy : y ∈ u.enumeration.enumerators) {a : FlagAccessor} (ha : a ∈ u.accessors x.settings.names y) :
    d.flagStatement? i f (a.role ++ "." ++ u.enumeration.fullName ++ "." ++ y.name) a.name =
      some ⟨a.op, 2 ^ y.value.toNat, (if a.op.isWrite then f.changeCode else "").toList⟩ := by
  have hm := h.flagMethod_mem hy ha
  have hkey : (flagMethod c i f f.onChange u.enumeration y a).key? =
      some (.field i, a.role ++ "." ++ u.enumeration.fullName ++ "." ++ y.name) := rfl
  have hname : (flagMethod c i f f.onChange u.enumeration y a).name = a.name := rfl
  have hfind := h.find? hm hkey
  rw [hname] at hfind
  unfold Class.flagStatement?
  rw [hfind]
  exact read?_flagMethod i f u.enumeration y a

section actions

variable (h : d.HasFlagMethods x c i f u ms) {y : Enumerator} (hy : y ∈ u.enumeration.enumerators) (w : BitVec 64)

include h hy

/-- What is done with the statement of an accessor, by its verb and what its name begins with. -/
theorem HasFlagMethods.verb_eq {β : Type} (kind verb start name : String) (op : BitOp)
    (act : BitStatement → Option β) (ha : ⟨kind ++ verb, start ++ name, op⟩ ∈ u.accessors x.settings.names y) :
    (d.flagStatement? i f (kind ++ verb ++ "." ++ u.enumeration.fullName ++ "." ++ y.name) (start ++ name)).bind act =
      act ⟨op, 2 ^ y.value.toNat, (if op.isWrite then f.changeCode else "").toList⟩ := by
  rw [h.flagStatement? hy ha, Option.bind_some]

theorem HasFlagMethods.flagActions_eq :
    let b := BitVec.ofNat 64 (2 ^ y.value.toNat)
    let a := d.flagActions x.settings.names i f u.enumeration y
    a.test w = BitOp.test.answer? b w ∧ (u.writes = true → a.set w = BitOp.raise.result? b w ∧
      a.unset w = BitOp.lower.result? b w ∧ a.toggle w = BitOp.toggle.result? b w) := by
  refine ⟨h.verb_eq hy "Flag" "Getter" x.settings.names.test y.name .test (·.answer? w) ?_, fun hwrites =>
    ⟨h.verb_eq hy "Flag" "Setter" x.settings.names.setter y.name .raise (·.result? w) ?_,
      h.verb_eq hy "Flag" "Unsetter" x.settings.names.unset y.name .lower (·.result? w) ?_,
      h.verb_eq hy "Flag" "Toggler" x.settings.names.toggle y.name .toggle (·.result? w) ?_⟩⟩
  · simp [FlagUse.accessors, FlagAccessor.tests, FlagAccessor.pair]
  · simp [FlagUse.accessors, FlagAccessor.setters, FlagAccessor.pair, hwrites]
  · simp [FlagUse.accessors, FlagAccessor.unsetters, FlagAccessor.pair, hwrites]
  · simp [FlagUse.accessors, FlagAccessor.togglers, FlagAccessor.pair, hwrites]

theorem HasFlagMethods.oppositeActions_eq (hopposite : y.opposite ≠ "") :
    let b := BitVec.ofNat 64 (2 ^ y.value.toNat)
    let a := d.oppositeActions x.settings.names i f u.enumeration y
    a.test w = BitOp.testNot.answer? b w ∧ (u.writes = true → a.set w = BitOp.lower.result? b w ∧
      a.unset w = BitOp.raise.result? b w ∧ a.toggle w = BitOp.toggle.result? b w) := by
  have hne : y.opposite.isEmpty = false := String.isEmpty_eq_false_iff.mpr hopposite
  refine ⟨h.verb_eq hy "FlagOpposite" "Getter" x.settings.names.test y.opposite .testNot (·.answer? w) ?_, fun hwrites =>
    ⟨h.verb_eq hy "FlagOpposite" "Setter" x.settings.names.setter y.opposite .lower (·.result? w) ?_,
      h.verb_eq hy "FlagOpposite" "Unsetter" x.settings.names.unset y.opposite .raise (·.result? w) ?_,
      h.verb_eq hy "FlagOpposite" "Toggler" x.settings.names.toggle y.opposite .toggle (·.result? w) ?_⟩⟩
  · simp [FlagUse.accessors, FlagAccessor.tests, FlagAccessor.pair, hne]
  · simp [FlagUse.accessors, FlagAccessor.setters, FlagAccessor.pair, hwrites, hne]
  · simp [FlagUse.accessors, FlagAccessor.unsetters, FlagAccessor.pair, hwrites, hne]
  · simp [FlagUse.accessors, FlagAccessor.togglers, FlagAccessor.pair, hwrites, hne]

theorem HasFlagMethods.complementActions_eq (hwrites : u.writes = true) (hnots : u.nots = true)
    (hopposite : y.opposite = "") :
    let b := BitVec.ofNat 64 (2 ^ y.value.toNat)
    let a := d.complementActions x.settings.names i f u.enumeration y
    a.test w = BitOp.testNot.answer? b w ∧ a.set w = BitOp.lower.result? b w := by
  refine ⟨h.verb_eq hy "FlagOpposite" "Getter" x.settings.names.testNot y.name .testNot (·.answer? w) ?_,
    h.verb_eq hy "FlagOpposite" "Setter" x.settings.names.setNot y.name .lower (·.result? w) ?_⟩
  · simp [FlagUse.accessors, FlagAccessor.tests, FlagAccessor.pair, hnots, hopposite]
  · simp [FlagUse.accessors, FlagAccessor.setters, FlagAccessor.pair, hwrites, hnots, hopposite]

end actions

/-- Bits of flags.  In a class that is derived without a fault, the methods for the flags that a field holds are
statements on the bits of the values of the enumerators.  Those of an enumerator act on its bit and leave the tests of
enumerators with other values as they are, those of an opposite act as those of the complement, and the code on a change
of the field runs behind every change and behind no test. -/
theorem derive_bits {r : Reader} {path : SourcePath} {text : String} {h : Header} (hread : r.read path text = .ok h)
    (hc : c ∈ h.classes) (hfault : (c.derive x).fault = none) (hf : c.fields[i]? = some f) (hu : f.HoldsFlags x u) :
    (c.derive x).result.FlagsActOnBits x.settings.names i f u := by
  obtain ⟨ms, o, hfilter, hms, hkeys, ho, hbits, -⟩ :=
    exists_fieldFlags (Reader.isDeclared_of_mem_read hread hc) hfault hf
  obtain rfl := (flagUse?_yields x c f o ho).2 u hu
  have hmethods : (c.derive x).result.HasFlagMethods x c i f u ms := ⟨hfilter, hms, hkeys, ho⟩
  have hvalue : ∀ y ∈ u.enumeration.enumerators, 0 ≤ y.value ∧ y.value.toNat < 64 := by
    intro y hy
    have hbit := hbits u rfl y hy
    unfold isNoBit at hbit
    simp only [Bool.or_eq_false_iff, decide_eq_false_iff_not] at hbit
    omega
  have hmem : ∀ m ∈ (c.derive x).result.methods, m.isMadeFromField i = true → m ∈ ms := fun m hm hmade =>
    hfilter ▸ List.mem_filter.mpr ⟨hm, hmade⟩
  refine ⟨fun m hm hfor => ?_, fun y hy a ha m hm hkey => ?_, fun m hm hkey => ?_, fun m hm hkey => ?_,
    fun y hy => ?_, fun y hy hopposite w => ?_,
    fun hwrites y hy hopposite w => ?_, fun hnots y hy hopposite w => ?_⟩
  · rcases cases_of_mem_fieldMethods x c hms (hmem m hm (m.isMadeFromField_of_isForFlagOf hfor)) with
      ⟨-, rfl⟩ | ⟨-, rfl⟩ | ⟨t, ht, y, hy, a, ha, rfl⟩
    · exact absurd hfor (Bool.eq_false_iff.mp (isForFlagOf_synthesize c "Getter" _))
    · exact absurd hfor (Bool.eq_false_iff.mp (isForFlagOf_synthesize c "Setter" _))
    · obtain rfl : u = t := Option.some.inj (Except.ok.inj (ho.symm.trans ht))
      exact ⟨y, hy, a, ha, _, rfl, rfl, read?_flagMethod i f u.enumeration y a, rfl, (hvalue y hy).1, rfl,
        Nat.pow_lt_pow_right (by decide) (hvalue y hy).2, rfl⟩
  · obtain rfl := hmethods.eq_of_key hy ha (hmem m hm (m.isMadeFromField_of_key hkey)) hkey
    rw [read?_flagMethod, Option.map_some]
  · rw [(accessor_of_key x c hms (hmem m hm (m.isMadeFromField_of_key hkey))).2 hkey]
    exact withOnChange_onChange f _
  · rw [(accessor_of_key x c hms (hmem m hm (m.isMadeFromField_of_key hkey))).1 hkey]
    rfl
  · refine FlagActions.actsOnBit (hvalue y hy).2 (fun w => (hmethods.flagActions_eq hy w).1)
      (fun hwrites w => (hmethods.flagActions_eq hy w).2 hwrites) fun o ho => ?_
    obtain ⟨z, hz, rfl⟩ := List.mem_map.mp ho
    obtain ⟨hz, hne⟩ := List.mem_filter.mp hz
    refine ⟨z.value.toNat, fun heq => of_decide_eq_true hne ?_, fun w => ?_⟩
    · have := (hvalue y hy).1
      have := (hvalue z hz).1
      omega
    · rw [(hmethods.flagActions_eq hz w).1, BitOp.answer?_two_pow w (hvalue z hz).2]
  · rw [(hmethods.oppositeActions_eq hy w hopposite).1, (hmethods.flagActions_eq hy w).1,
      BitOp.answer?_two_pow w (hvalue y hy).2, BitOp.answer?_two_pow w (hvalue y hy).2]
    rfl
  · obtain ⟨hset, hunset, htoggle⟩ := (hmethods.oppositeActions_eq hy w hopposite).2 hwrites
    obtain ⟨hset', hunset', htoggle'⟩ := (hmethods.flagActions_eq hy w).2 hwrites
    exact ⟨hset.trans hunset'.symm, hunset.trans hset'.symm, htoggle.trans htoggle'.symm⟩
  · have hwrites : u.writes = true := (Bool.and_eq_true_iff.mp (hu.nots.symm.trans hnots)).1
    obtain ⟨htest, hset⟩ := hmethods.complementActions_eq hy w hwrites hnots hopposite
    refine ⟨?_, hset.trans ((hmethods.flagActions_eq hy w).2 hwrites).2.1.symm⟩
    rw [htest, (hmethods.flagActions_eq hy w).1, BitOp.answer?_two_pow w (hvalue y hy).2,
      BitOp.answer?_two_pow w (hvalue y hy).2]
    rfl

/-- The methods for two flags in a field act on their bits. -/
theorem derive_bits_twoFlags :
    ∃ (h : Header) (c : Class) (f : Field),
      let d := (c.derive ⟨{}, fun _ => some twoFlags⟩).result
      (Reader.ofSettings {}).read ⟨.relative, ["Unit.h"]⟩
          ("RClass()\nstruct Unit \x7b\nRBody();\nRField(Flags = Color, FlagNots)\nint mColors;\n\x7d;") = .ok h ∧
        c ∈ h.classes ∧ (c.derive ⟨{}, fun _ => some twoFlags⟩).fault = none ∧ c.fields[0]? = some f ∧
        f.HoldsFlags ⟨{}, fun _ => some twoFlags⟩ ⟨twoFlags, true, true⟩ ∧
        d.FlagsActOnBits {} 0 f ⟨twoFlags, true, true⟩ := by
  obtain ⟨h, c, f, hread, hc, hfault, hf, hholds⟩ := exists_twoFlags
  exact ⟨h, c, f, hread, hc, hfault, hf, hholds, derive_bits hread hc hfault hf hholds⟩

end Class
end HeaderReflection
