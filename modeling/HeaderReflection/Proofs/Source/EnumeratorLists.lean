import HeaderReflection.Proofs.Source.Characters
import HeaderReflection.Proofs.Source.Extents
import HeaderReflection.Proofs.Source.Layers
import Mathlib.Data.List.Nodup

/-! # Attribute lists of enumerators

An attribute list in the body of an enum stands in the call of a marker, and it belongs to the next
enumerator, on its own line or below.

* A list whose line declares no enumerator waits (`Reader.Waits`).  Blank lines and comments leave it waiting;
  another list takes its place, and so the first one is lost.
* An enumerator takes the list on its own line, or else the one that waits in front of it
  (`Reader.isOwnList_enumeratorList`).
* A list that still waits where the body ends is lost as well.

What is said of a list is said of the lines: which list waits behind a line is decided by the lines above it
(`Reader.waits_waitingList`), whatever they declare.  Every enumerator has the attributes of the one list that
it takes, and every list that is not lost is applied to the next enumerator and to no other one
(`Reader.lists_of_enumerators`).  That a list can be lost is shown by an example (`Reader.list_lost`). -/

namespace HeaderReflection

open Checked Text

/-- The first enumerator that stands at a line or below. -/
structure Enumeration.IsNext (e : Enumeration) (m : Nat) (x : Enumerator) : Prop where
  mem : x ∈ e.enumerators
  behind : m ≤ x.line
  least : ∀ y ∈ e.enumerators, m ≤ y.line → x.line ≤ y.line

theorem EnumeratorText.native_nodup : EnumeratorText.read.Yields fun t => t.native.keys.Nodup := by
  refine .bind (.any _) fun name _ => .bind Attribute.nativeAttributes_nodup fun native hnative => ?_
  refine .bind (.any _) fun value _ => .bind (.any _) fun _ _ => .bind (.any _) fun rest _ => ?_
  dsimp only
  split
  · exact .pure hnative
  · exact .pure hnative
  · exact .pure hnative
  · exact .throw_bind _

namespace Reader

variable {r : Reader} {path : SourcePath} {lines : List String} {e : Enumeration} {x : Enumerator} {bag : Bag}
  {n m N brace : Nat}

/-- The line is empty or a comment. -/
def IdleAt (lines : List String) (n : Nat) : Prop := (lineAt? lines n).any isIdle = true

/-- An enumerator marker with the attribute list stands at line `m` of the body that begins behind line `brace`. -/
structure ListAt (r : Reader) (lines : List String) (brace m : Nat) (bag : Bag) : Prop where
  behind : brace < m
  inside : ∀ k, brace < k → k ≤ m → ¬ClosesAt lines k
  busy : ¬IdleAt lines m
  list : ∃ rest, r.enumeratorMarkerAt? lines m = some (bag, rest)

/-- The enumerator is the next one behind line `m`, and no list follows in front of it. -/
structure Takes (r : Reader) (lines : List String) (e : Enumeration) (m : Nat) (x : Enumerator) : Prop where
  next : e.IsNext m x
  last : ∀ k bag, r.ListAt lines (r.braceLine lines e.line) k bag → m < k → x.line < k

/-- The bag is the list that the enumerator takes, empty if there is none. -/
def IsOwnList (r : Reader) (lines : List String) (e : Enumeration) (x : Enumerator) (own : Bag) : Prop :=
  (∃ m, r.ListAt lines (r.braceLine lines e.line) m own ∧ r.Takes lines e m x) ∨
    own = [] ∧ ∀ m bag, r.ListAt lines (r.braceLine lines e.line) m bag → ¬r.Takes lines e m x

/-- The native attributes of the enumerator at a line. -/
def nativeAt? (r : Reader) (lines : List String) (n : Nat) : Option Bag :=
  ((r.enumeratorAt? lines n).bind fun text => (EnumeratorText.read.eval text).toOption).map (·.native)

/-! ### Lists that wait -/

/-- What waits behind line `n`: the list of the last line that is neither empty nor a comment, or none if that is the
brace or declares an enumerator. -/
inductive Waits (r : Reader) (lines : List String) (brace n : Nat) : Bag → Prop where
  | list {m : Nat} {bag : Bag} {rest : List Char} (hbehind : brace < m) (hmn : m ≤ n) (hbusy : ¬IdleAt lines m)
      (hmarker : r.enumeratorMarkerAt? lines m = some (bag, rest)) (hrest : isIdle rest = true)
      (hidle : ∀ k, m < k → k ≤ n → IdleAt lines k) : Waits r lines brace n bag
  | nothing {b : Nat} (hbehind : brace ≤ b) (hbn : b ≤ n) (hbegin : b = brace ∨ r.isEnumeratorLine lines b = true)
      (hidle : ∀ k, b < k → k ≤ n → IdleAt lines k) : Waits r lines brace n []

theorem idleAt_iff {line : List Char} (hline : lineAt? lines n = some line) : IdleAt lines n ↔ isIdle line = true := by
  unfold IdleAt
  rw [hline]
  rfl

theorem idleAt_succ {b : Nat} (hidle : ∀ k, b < k → k ≤ n → IdleAt lines k) (hat : IdleAt lines (n + 1)) :
    ∀ k, b < k → k ≤ n + 1 → IdleAt lines k := by
  intro k hb hk
  rcases Nat.lt_or_eq_of_le hk with hk | rfl
  · exact hidle k hb (Nat.le_of_lt_succ hk)
  · exact hat

theorem Waits.idle (h : r.Waits lines brace n bag) (hat : IdleAt lines (n + 1)) : r.Waits lines brace (n + 1) bag := by
  cases h with
  | list hbehind hmn hbusy hmarker hrest hidle =>
      exact .list hbehind (Nat.le_succ_of_le hmn) hbusy hmarker hrest (idleAt_succ hidle hat)
  | nothing hbehind hbn hbegin hidle => exact .nothing hbehind (Nat.le_succ_of_le hbn) hbegin (idleAt_succ hidle hat)

/-- Behind a line that is neither empty nor a comment waits its own list, or none. -/
theorem waits_of_busy {line : List Char} (hn : brace < n) (hline : lineAt? lines n = some line)
    (hidle : isIdle line = false) : r.Waits lines brace n (r.waitingList lines brace n) := by
  have hbusy : ¬IdleAt lines n := mt (idleAt_iff hline).mp (Bool.eq_false_iff.mp hidle)
  have hself : ∀ k, n < k → k ≤ n → IdleAt lines k := fun k hk hle => absurd hle (Nat.not_le.mpr hk)
  have hdeclares := isEnumeratorLine_eq (r := r) hline
  rw [waitingList_of_busy hn hline hidle]
  cases hmarker : r.enumeratorMarkerAt? lines n with
  | none =>
      refine .nothing (Nat.le_of_lt hn) (Nat.le_refl n) (.inr ?_) hself
      rw [hdeclares, hidle, hmarker]
      rfl
  | some p =>
      dsimp only
      split
      · rename_i hrest
        exact .list hn (Nat.le_refl n) hbusy hmarker hrest hself
      · rename_i hrest
        refine .nothing (Nat.le_of_lt hn) (Nat.le_refl n) (.inr ?_) hself
        rw [hdeclares, hidle, hmarker]
        simp [hrest]

/-- The list that waits is told by the lines above it. -/
theorem waits_waitingList (hn : brace ≤ n) (hlines : ∀ k, brace < k → k ≤ n → (lineAt? lines k).isSome) :
    r.Waits lines brace n (r.waitingList lines brace n) := by
  have hstart : ∀ m, r.Waits lines m m (r.waitingList lines m m) := fun m => by
    rw [waitingList_of_le (Nat.le_refl m)]
    exact .nothing (Nat.le_refl m) (Nat.le_refl m) (.inl rfl) fun k hk hle => absurd hle (Nat.not_le.mpr hk)
  induction n with
  | zero =>
      obtain rfl := Nat.le_zero.mp hn
      exact hstart 0
  | succ n ih =>
      rcases Nat.lt_or_eq_of_le hn with hlt | rfl
      · obtain ⟨line, hline⟩ := Option.isSome_iff_exists.mp (hlines (n + 1) hlt (Nat.le_refl _))
        cases hidle : isIdle line with
        | true =>
            have habove := ih (Nat.le_of_lt_succ hlt) fun k hb hk => hlines k hb (Nat.le_succ_of_le hk)
            rw [waitingList_of_idle hlt hline hidle, Nat.add_sub_cancel]
            exact habove.idle ((idleAt_iff hline).mpr hidle)
        | false => exact waits_of_busy hlt hline hidle
      · exact hstart (n + 1)

/-! ### The list of an enumerator -/

/-- The enumerators of a body stand where its lines declare them. -/
theorem IsOpenAt.exists_line_iff (h : r.IsOpenAt lines N e) :
    (∃ x ∈ e.enumerators, x.line = n) ↔
      r.braceLine lines e.line < n ∧ n < N ∧ r.isEnumeratorLine lines n = true := by
  have hmem : n ∈ e.enumerators.map (·.line) ↔ n ∈ r.enumeratorLines lines (r.braceLine lines e.line) N := by
    rw [h.enumerators]
  simp only [List.mem_map, enumeratorLines, List.mem_filter, List.mem_range, Bool.and_eq_true,
    decide_eq_true_eq] at hmem
  rw [hmem]
  exact ⟨fun ⟨hbefore, hbehind, hdeclares⟩ => ⟨hbehind, hbefore, hdeclares⟩,
    fun ⟨hbehind, hbefore, hdeclares⟩ => ⟨hbefore, hbehind, hdeclares⟩⟩

theorem IsOpenAt.pairwise_lines (h : r.IsOpenAt lines N e) : (e.enumerators.map (·.line)).Pairwise (· < ·) := by
  rw [h.enumerators]
  exact List.pairwise_lt_range.filter _

theorem Takes.unique {y : Enumerator} (h : r.IsOpenAt lines N e) (hx : r.Takes lines e m x)
    (hy : r.Takes lines e m y) : x = y := by
  have hle := hx.next.least y hy.next.mem hy.next.behind
  have hge := hy.next.least x hx.next.mem hx.next.behind
  have hnodup : (e.enumerators.map (·.line)).Nodup := h.pairwise_lines.imp Nat.ne_of_lt
  exact List.inj_on_of_nodup_map hnodup hx.next.mem hy.next.mem (Nat.le_antisymm hle hge)

theorem ListAt.not_idle_between {a : Nat} (h : r.ListAt lines brace m bag) (hidle : ∀ k, a < k → k ≤ n → IdleAt lines k)
    (ha : a < m) : n < m := by
  refine Nat.lt_of_not_le fun hle => ?_
  exact h.busy (hidle m ha hle)

theorem not_idleAt_of_isEnumeratorLine (h : r.isEnumeratorLine lines n = true) : ¬IdleAt lines n := by
  unfold isEnumeratorLine at h
  unfold IdleAt
  cases hline : lineAt? lines n with
  | none =>
      rw [hline] at h
      cases h
  | some line =>
      rw [hline] at h
      have hvisible := (Bool.and_eq_true_iff.mp h).1
      simpa using hvisible

theorem isEnumeratorLine_eq_false {rest : List Char} (hmarker : r.enumeratorMarkerAt? lines n = some (bag, rest))
    (hrest : isIdle rest = true) : r.isEnumeratorLine lines n = false := by
  unfold isEnumeratorLine
  rw [hmarker]
  cases lineAt? lines n with
  | none => rfl
  | some line => simp [hrest]

theorem IsOpenAt.inside (h : r.IsOpenAt lines N e) (hx : x ∈ e.enumerators) (hm : m ≤ x.line) :
    ∀ k, r.braceLine lines e.line < k → k ≤ m → ¬ClosesAt lines k := by
  obtain ⟨-, hbefore, -⟩ := h.exists_line_iff.mp ⟨x, hx, rfl⟩
  exact fun k hk hle => h.goes_on k hk (by omega)

/-- An enumerator without a list on its line takes the one that waits in front of it. -/
theorem Waits.isOwnList {own : Bag} (hwaits : r.Waits lines (r.braceLine lines e.line) (x.line - 1) own)
    (h : r.IsOpenAt lines N e) (hx : x ∈ e.enumerators) (hmarker : r.enumeratorMarkerAt? lines x.line = none) :
    r.IsOwnList lines e x own := by
  have hstands : ∀ y ∈ e.enumerators, r.isEnumeratorLine lines y.line = true := fun y hy =>
    (h.exists_line_iff.mp ⟨y, hy, rfl⟩).2.2
  obtain ⟨hbehind, hbefore, -⟩ := h.exists_line_iff.mp ⟨x, hx, rfl⟩
  have hnot : ∀ k bag, r.ListAt lines (r.braceLine lines e.line) k bag → k ≠ x.line := by
    rintro k bag hlist rfl
    obtain ⟨rest, hrest⟩ := hlist.list
    cases hmarker.symm.trans hrest
  cases hwaits with
  | @list m _ rest hbm hmn hbusy hfound hrest hidle =>
      -- Between the marker of the waiting list and the enumerator there are only empty lines and comments.
      have hlistAt : r.ListAt lines (r.braceLine lines e.line) m own :=
        ⟨hbm, h.inside hx (by omega), hbusy, rest, hfound⟩
      refine .inl ⟨m, hlistAt, ⟨hx, by omega, fun y hy hle => ?_⟩, fun k bag hlist hlt => ?_⟩
      · refine Nat.le_of_not_lt fun hlt => ?_
        rcases Nat.lt_or_eq_of_le hle with hmy | rfl
        · exact not_idleAt_of_isEnumeratorLine (hstands y hy) (hidle y.line hmy (by omega))
        · cases (hstands y hy).symm.trans (isEnumeratorLine_eq_false hfound hrest)
      · have hbelow := hlist.not_idle_between hidle hlt
        have hother := hnot k bag hlist
        omega
  | @nothing b hb hbn hbegin hidle =>
      -- A list above stands in front of an enumerator that comes earlier.
      refine .inr ⟨rfl, fun m bag hlist htakes => ?_⟩
      have hother := hnot m bag hlist
      have hmx := htakes.next.behind
      have hmb : m ≤ b := Nat.le_of_not_lt fun hlt => by
        have hbelow := hlist.not_idle_between hidle hlt
        omega
      rcases hbegin with rfl | hearlier
      · exact absurd hlist.behind (Nat.not_lt.mpr hmb)
      · have hbm := hlist.behind
        obtain ⟨y, hy, hyb⟩ := h.exists_line_iff.mpr ⟨by omega, by omega, hearlier⟩
        have hle := htakes.next.least y hy (hyb ▸ hmb)
        omega

theorem isOwnList_enumeratorList (h : r.IsOpenAt lines N e) (hend : ClosesAt lines N) (hx : x ∈ e.enumerators) :
    r.IsOwnList lines e x (r.enumeratorList lines (r.braceLine lines e.line) x.line) := by
  obtain ⟨hbehind, hbefore, hdeclares⟩ := h.exists_line_iff.mp ⟨x, hx, rfl⟩
  unfold enumeratorList
  cases hmarker : r.enumeratorMarkerAt? lines x.line with
  | some p =>
      -- The list on the line of the enumerator is the last one in front of it.
      have hbusy := not_idleAt_of_isEnumeratorLine hdeclares
      exact .inl ⟨x.line, ⟨hbehind, h.inside hx (Nat.le_refl _), hbusy, p.2, hmarker⟩,
        ⟨hx, Nat.le_refl _, fun y _ hle => hle⟩, fun k bag _ hlt => hlt⟩
  | none =>
      have hlines : ∀ k, r.braceLine lines e.line < k → k ≤ x.line - 1 → (lineAt? lines k).isSome := by
        intro k hk hle
        obtain ⟨s, hs⟩ := hend
        have hlast := (isSome_lineAt?_iff (n := N)).mp (by rw [hs]; rfl)
        exact isSome_lineAt?_iff.mpr ⟨by omega, by omega⟩
      exact (waits_waitingList (Nat.le_sub_one_of_lt hbehind) hlines).isOwnList h hx hmarker

/-! ### Enums of headers -/

/-- An enumerator takes one list. -/
theorem Takes.list_unique {k : Nat} {other : Bag} (hm : r.Takes lines e m x) (hk : r.Takes lines e k x)
    (hbag : r.ListAt lines (r.braceLine lines e.line) m bag)
    (hother : r.ListAt lines (r.braceLine lines e.line) k other) : bag = other := by
  rcases Nat.lt_trichotomy m k with hlt | rfl | hlt
  · exact absurd hk.next.behind (Nat.not_le.mpr (hm.last k other hother hlt))
  · obtain ⟨_, hbag⟩ := hbag.list
    obtain ⟨_, hother⟩ := hother.list
    cases hbag.symm.trans hother
    rfl
  · exact absurd hm.next.behind (Nat.not_le.mpr (hk.last m bag hbag hlt))

/-- The attributes of an enumerator are merged from the defaults, the list that it takes and its native attributes. -/
structure MergesList (r : Reader) (lines : List String) (e : Enumeration) (x : Enumerator) (own native : Bag) :
    Prop where
  takes : r.IsOwnList lines e x own
  nativeAt : r.nativeAt? lines x.line = some native
  nodup : own.keys.Nodup ∧ native.keys.Nodup
  attributes : x.attributes =
    ((r.settings.defaults.enumerators.merge e.defaultEnumeratorAttributes).merge own).merge native

theorem exists_mergesList {text : String} {h : Header} (hr : r.read path text = .ok h) (he : e ∈ h.enums)
    (hx : x ∈ e.enumerators) : ∃ own native, r.MergesList (Text.lines text) e x own native := by
  obtain ⟨N, hopen, hend⟩ := isOpenAt_of_mem_enums hr he
  obtain ⟨l, hl, hmerged⟩ := read_enums layersEnumerators_invariant hr e he x hx
  obtain ⟨own, hown, hl⟩ := Option.bind_eq_some_iff.mp hl
  obtain ⟨t, ht, hl⟩ := Option.bind_eq_some_iff.mp hl
  obtain rfl := Option.some.inj hl
  refine ⟨_, t.native, isOwnList_enumeratorList hopen hend hx, ?_, ⟨hmerged.own, ?_⟩, hmerged.attributes⟩
  · unfold nativeAt?
    rw [hown, Option.bind_some, ht]
    rfl
  · exact EnumeratorText.native_nodup.of_eval (toOption_eq_some.mp ht)

/-- Every enumerator has the attributes of the one list that it takes, and a list is taken by the next enumerator and
by no other one, if no other list follows in front of it: each key that it sets has the value there that it gives,
unless a native attribute sets the key. -/
theorem lists_of_enumerators {text : String} {h : Header} (hr : r.read path text = .ok h) (he : e ∈ h.enums) :
    (∀ x ∈ e.enumerators, ∃ own native, r.MergesList (Text.lines text) e x own native) ∧
      ∀ m bag, r.ListAt (Text.lines text) (r.braceLine (Text.lines text) e.line) m bag →
        ∀ x, r.Takes (Text.lines text) e m x →
          (∀ y, r.Takes (Text.lines text) e m y → y = x) ∧
            ∃ native, r.nativeAt? (Text.lines text) x.line = some native ∧
              ∀ k v, bag.get? k = some v → x.attributes.get? k = some ((native.get? k).getD v) := by
  obtain ⟨N, hopen, -⟩ := isOpenAt_of_mem_enums hr he
  refine ⟨fun x hx => exists_mergesList hr he hx, fun m bag hlist x htakes => ⟨fun y hy => hy.unique hopen htakes, ?_⟩⟩
  obtain ⟨own, native, hmerges⟩ := exists_mergesList hr he htakes.next.mem
  have hown : own = bag := by
    rcases hmerges.takes with ⟨k, hother, hk⟩ | ⟨-, hnone⟩
    · exact hk.list_unique htakes hother hlist
    · exact absurd htakes (hnone m bag hlist)
  subst hown
  refine ⟨native, hmerges.nativeAt, fun k v hv => ?_⟩
  rw [hmerges.attributes, Keyed.get?_merge _ hmerges.nodup.2, Keyed.get?_merge _ hmerges.nodup.1, hv]
  cases native.get? k with
  | some w => rfl
  | none => rfl

theorem lists_of_enumerators_below :
    ∃ (h : Header) (e : Enumeration) (x : Enumerator),
      (Reader.ofSettings {}).read ⟨.relative, ["Side.h"]⟩
          "REnum()\nenum Side \x7b\nREnumerator(DisplayName = L)\n\nLeft,\nRight\n\x7d;" = .ok h ∧
        e ∈ h.enums ∧ (Reader.ofSettings {}).Takes
          (Text.lines "REnum()\nenum Side \x7b\nREnumerator(DisplayName = L)\n\nLeft,\nRight\n\x7d;") e 3 x ∧
        x.attributes.get? "DisplayName" = some (.str "L") := by
  let r := Reader.ofSettings {}
  let lines := ["REnum()", "enum Side \x7b", "REnumerator(DisplayName = L)", "", "Left,", "Right", "\x7d;"]
  have htext : Text.lines "REnum()\nenum Side \x7b\nREnumerator(DisplayName = L)\n\nLeft,\nRight\n\x7d;" = lines :=
    Text.lines_ofList _
  have hrun : (r.read ⟨.relative, ["Side.h"]⟩
        "REnum()\nenum Side \x7b\nREnumerator(DisplayName = L)\n\nLeft,\nRight\n\x7d;"
      |>.toOption.any fun h => h.enums.any fun e => e.line == 1 && e.enumerators.map (·.line) == [5, 6]) = true := by
    rw [read_ofList]
    decide +kernel
  have hbrace : r.braceLine lines 1 = 2 := by decide +kernel
  have hmarker : r.enumeratorMarkerAt? lines 3 = some ([("DisplayName", .str "L")], []) := by decide +kernel
  have hnative : r.nativeAt? lines 5 = some [] := by decide +kernel
  have hline : lineAt? lines 3 = some "REnumerator(DisplayName = L)".toList := by decide
  have hlist : r.ListAt lines 2 3 [("DisplayName", .str "L")] := by
    refine ⟨by decide, fun k hk hle => ?_, by unfold IdleAt; decide, [], hmarker⟩
    obtain rfl : k = 3 := by omega
    exact not_closesAt hline nofun
  have hother : ∀ k bag, r.ListAt lines 2 k bag → 3 < k → 5 < k := by
    intro k bag hk hlt
    refine Nat.lt_of_not_le fun hle => ?_
    obtain rfl | rfl : k = 4 ∨ k = 5 := by omega
    · exact hk.busy (by unfold IdleAt; decide)
    · obtain ⟨rest, hrest⟩ := hk.list
      have hnone : r.enumeratorMarkerAt? lines 5 = none := by decide
      cases hnone.symm.trans hrest
  obtain ⟨h, hread, hrun⟩ := Checked.exists_ok_of_any hrun
  obtain ⟨e, he, hrun⟩ := List.any_eq_true.mp hrun
  obtain ⟨hat, hlines⟩ := Bool.and_eq_true_iff.mp hrun
  have hat : e.line = 1 := eq_of_beq hat
  have hlines : e.enumerators.map (·.line) = [5, 6] := eq_of_beq hlines
  obtain ⟨x, hx, hxline⟩ := List.mem_map.mp (hlines ▸ List.mem_cons_self : 5 ∈ e.enumerators.map (·.line))
  have hnext : e.IsNext 3 x := by
    refine ⟨hx, by omega, fun y hy _ => ?_⟩
    have hmem : y.line ∈ [5, 6] := hlines ▸ List.mem_map_of_mem hy
    simp only [List.mem_cons, List.not_mem_nil, or_false] at hmem
    omega
  have hbraceat : r.braceLine lines e.line = 2 := by rw [hat, hbrace]
  have htakes : r.Takes lines e 3 x := ⟨hnext, by rw [hbraceat, hxline]; exact hother⟩
  obtain ⟨-, hlists⟩ := lists_of_enumerators hread he
  rw [htext] at hlists ⊢
  obtain ⟨-, native, hnativeat, hkeys⟩ := hlists 3 [("DisplayName", .str "L")] (hbraceat ▸ hlist) x htakes
  refine ⟨h, e, x, hread, he, htakes, ?_⟩
  rw [hxline] at hnativeat
  obtain rfl := Option.some.inj (hnative.symm.trans hnativeat)
  exact hkeys "DisplayName" (.str "L") rfl

/-- A list in front of another one reaches no enumerator. -/
theorem list_lost :
    ∃ (h : Header) (e : Enumeration),
      (Reader.ofSettings {}).read ⟨.relative, ["Side.h"]⟩
          "REnum()\nenum Side \x7b\nREnumerator(DisplayName = L)\nREnumerator(Opposite = Right)\nLeft,\nRight\n\x7d;" =
          .ok h ∧
        e ∈ h.enums ∧ (Reader.ofSettings {}).enumeratorMarkerAt?
          (Text.lines
            "REnum()\nenum Side \x7b\nREnumerator(DisplayName = L)\nREnumerator(Opposite = Right)\nLeft,\nRight\n\x7d;")
          3 = some ([("DisplayName", .str "L")], []) ∧
        e.enumerators.map (fun x => (x.line, x.attributes)) = [(5, [("Opposite", .str "Right")]), (6, [])] := by
  have hrun : ((Reader.ofSettings {}).read ⟨.relative, ["Side.h"]⟩
        "REnum()\nenum Side \x7b\nREnumerator(DisplayName = L)\nREnumerator(Opposite = Right)\nLeft,\nRight\n\x7d;"
      |>.toOption.any fun h => h.enums.any fun e =>
        e.enumerators.map (fun x => (x.line, x.attributes)) ==
          [(5, [("Opposite", .str "Right")]), (6, [])]) = true := by
    rw [read_ofList]
    decide +kernel
  obtain ⟨h, hread, hrun⟩ := Checked.exists_ok_of_any hrun
  obtain ⟨e, he, hrun⟩ := List.any_eq_true.mp hrun
  refine ⟨h, e, hread, he, ?_, eq_of_beq hrun⟩
  rw [Text.lines_ofList]
  decide +kernel

end Reader

end HeaderReflection
