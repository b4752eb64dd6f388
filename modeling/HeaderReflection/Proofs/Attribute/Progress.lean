import HeaderReflection.Proofs.Attribute.Iterations

/-! # Progress of the reader of attribute lists

Whatever a reader of keys, strings or values answers, it leaves a proper end of its text, and where it fails
it stops at an end of it (`Advances`).  So an iteration of a loop takes something unless it is the last one
(`iterationAdvances_memberStep`, `iterationAdvances_itemStep`).

The proof has three layers.  Keys, strings, words and separators are told first, each reader by itself.  Then
come single iterations, under the assumption that the values in them advance.  The loops follow from their
iterations by `Repeats.leaves`, and a value behind a bracket is such a loop.  Since a value is read inside the
iteration that it belongs to, all of this goes by the length of the text: the loops inside a value read
shorter values (`advances_readValue`).

`Leaves A F x` is the form in which these facts are handed on: the answer has the property `A`, and a failure
stops at a text with the property `F`.

The last section says the same of positions in a whole text: a reader that starts at a position ends at a
later one (`MovesOn`). -/

namespace HeaderReflection.Attribute

open Text

variable {α β σ : Type} {s t u v r : List Char} {c : Char} {closer : Option Char}

/-! ### Ends of a text -/

/-- The text `r` is an end of `s` and shorter. -/
def IsBehind (r s : List Char) : Prop := r <:+ s ∧ r.length < s.length

namespace IsBehind

theorem cons (c : Char) (s : List Char) : IsBehind s (c :: s) := ⟨List.suffix_cons c s, Nat.lt_succ_self _⟩

theorem trans_suffix (h : IsBehind r t) (ht : t <:+ s) : IsBehind r s :=
  ⟨h.1.trans ht, Nat.lt_of_lt_of_le h.2 ht.length_le⟩

theorem of_suffix (hr : r <:+ t) (h : IsBehind t s) : IsBehind r s :=
  ⟨hr.trans h.1, Nat.lt_of_le_of_lt hr.length_le h.2⟩

theorem of_trimLeft (hs : trimLeft s = c :: t) : IsBehind t s := (cons c t).trans_suffix (hs ▸ trimLeft_suffix s)

end IsBehind

/-- The answer has the property `A`, and where there is none, the text at which it fails has the property `F`. -/
def Leaves (A : α → Prop) (F : List Char → Prop) : Except ReadFault α → Prop
  | .ok a => A a
  | .error f => F f.rest

namespace Leaves

variable {A A' : α → Prop} {F F' : List Char → Prop} {x : Except ReadFault α}

theorem mono (h : Leaves A F x) (hA : ∀ a, A a → A' a) (hF : ∀ r, F r → F' r) : Leaves A' F' x := by
  cases x with
  | error f => exact hF _ h
  | ok a => exact hA _ h

theorem of_map {B : β → Prop} {f : α → β} (h : Leaves (fun a => B (f a)) F x) : Leaves B F (x.map f) := by
  cases x with
  | error f => exact h
  | ok a => exact h

end Leaves

/-- The text that an iteration leaves has the property `Y` if the loop goes on, and `D` if the loop ends. -/
def LeftBy (Y D : List Char → Prop) : ForInStep (σ × List Char) → Prop
  | .yield p => Y p.2
  | .done p => D p.2

/-- A reader leaves a proper end of its text; if it fails, it stops at an end of it. -/
def Advances (s : List Char) (x : Except ReadFault (α × List Char)) : Prop :=
  Leaves (fun p => IsBehind p.2 s) (· <:+ s) x

/-- An iteration leaves a proper end of its text if the loop goes on. -/
def IterationAdvances (s : List Char) (x : Iteration σ) : Prop :=
  Leaves (LeftBy (IsBehind · s) (· <:+ s)) (· <:+ s) x

/-! ### Strings, keys and separators -/

/-- A string that is not closed is read to the end of the text. -/
theorem leaves_readString (q : Char) (s : List Char) :
    Leaves (fun p => IsBehind p.2 s) (· = []) (readString q s) := by
  fun_induction readString q s with
  | case1 => rfl
  | case2 c s ih =>
      exact .of_map (ih.mono (fun _ h => h.trans_suffix ⟨['\\', c], rfl⟩) fun _ h => h)
  | case3 s => exact IsBehind.cons q s
  | case4 c s _ _ ih =>
      exact .of_map (ih.mono (fun _ h => h.trans_suffix (List.suffix_cons c s)) fun _ h => h)

theorem advances_readString (q : Char) (s : List Char) : Advances (q :: s) (readString q s) :=
  (leaves_readString q s).mono (fun _ h => h.trans_suffix (List.suffix_cons q s)) fun _ h => h ▸ List.nil_suffix

theorem advances_readKey (s : List Char) : Advances s (readKey s) := by
  cases s with
  | nil => exact List.suffix_rfl
  | cons c s =>
      dsimp only [readKey]
      by_cases hquote : isQuote c = true
      · rw [if_pos hquote]
        exact advances_readString c s
      · rw [if_neg hquote]
        by_cases hkey : isKeyChar c = true
        · rw [if_pos hkey, List.dropWhile_cons_of_pos hkey]
          exact .of_suffix (List.dropWhile_suffix isKeyChar) (.cons c s)
        · rw [if_neg hkey]
          exact List.suffix_rfl

theorem isBehind_readWord (h : (readWord s).1 ≠ []) : IsBehind (readWord s).2 s :=
  ⟨⟨(readWord s).1, readWord_append s⟩, readWord_shorter h⟩

/-- Behind a value that leaves a text with the property `A`, the separator leaves an end of this text. -/
theorem leaves_separated {A Y D F : List Char → Prop} {x : Except ReadFault (Value × List Char)}
    (hx : Leaves (fun p => A p.2) F x) (hY : ∀ r t, r <:+ t → A t → Y r) (hF : ∀ r t, r <:+ t → A t → F r)
    (fault : ListFault) (stop : List Char → Bool) (add : Value → σ) :
    Leaves (LeftBy Y D) F (separated fault stop add x) := by
  cases x with
  | error f => exact hx
  | ok p =>
      have hskipped := trimLeft_suffix p.2
      refine .of_map ?_
      unfold readSeparator
      split
      · rename_i t htext
        exact hY _ _ ((htext ▸ List.suffix_cons ',' t : t <:+ trimLeft p.2).trans hskipped) hx
      · split
        · exact hY _ _ hskipped hx
        · exact hF _ _ hskipped hx

/-! ### Heads -/

/-- What the beginning of a value leaves of its text. -/
def ValueHead.LeftOf (s : List Char) : ValueHead → Prop
  | .object t => trimLeft s = '\x7b' :: t
  | .array t => trimLeft s = '[' :: t
  | .whole _ r => IsBehind r s

theorem leaves_valueHead (s : List Char) : Leaves (ValueHead.LeftOf s) (· <:+ s) (valueHead s) := by
  cases hs : trimLeft s with
  | nil =>
      rw [valueHead_nil hs]
      exact List.nil_suffix
  | cons c t =>
      have htrimmed : c :: t <:+ s := hs ▸ trimLeft_suffix s
      rw [valueHead_cons hs]
      by_cases hobject : c = '\x7b'
      · rw [if_pos hobject]
        exact hs.trans (hobject ▸ rfl)
      rw [if_neg hobject]
      by_cases harray : c = '['
      · rw [if_pos harray]
        exact hs.trans (harray ▸ rfl)
      rw [if_neg harray]
      by_cases hquote : isQuote c = true
      · rw [if_pos hquote]
        exact .of_map ((advances_readString c t).mono (fun _ h => h.trans_suffix htrimmed) fun _ h =>
          h.trans htrimmed)
      rw [if_neg hquote]
      by_cases hword : (readWord (c :: t)).1 = []
      · rw [if_pos hword]
        exact htrimmed
      · rw [if_neg hword]
        have hbehind := (isBehind_readWord hword).trans_suffix htrimmed
        unfold wordHead
        cases convertWord (readWord (c :: t)).1 with
        | ok v => exact hbehind
        | error e => exact hbehind.1

/-- What the beginning of an iteration over members leaves of its text. -/
def MemberHead.LeftOf (s : List Char) : MemberHead → Prop
  | .ends r => r <:+ s
  | .key _ u => IsBehind u s

theorem leaves_memberHead (closer : Option Char) (s : List Char) :
    Leaves (MemberHead.LeftOf s) (· <:+ s) (memberHead closer s) := by
  cases hs : trimLeft s with
  | nil =>
      rw [memberHead_nil hs]
      cases closer with
      | none => exact List.nil_suffix
      | some c => exact List.nil_suffix
  | cons c t =>
      have htrimmed : c :: t <:+ s := hs ▸ trimLeft_suffix s
      rw [memberHead_cons hs]
      by_cases hcloser : closer = some c
      · rw [if_pos hcloser]
        exact (IsBehind.of_trimLeft hs).1
      · rw [if_neg hcloser]
        exact .of_map ((advances_readKey (c :: t)).mono (fun _ h => h.trans_suffix htrimmed) fun _ h =>
          h.trans htrimmed)

theorem isBehind_assignedText (h : assignedText? u = some v) : IsBehind v u := by
  unfold assignedText? at h
  split at h
  · cases h
  · rename_i c t htext
    split at h
    · cases h
      exact .of_trimLeft htext
    · cases h

theorem leaves_itemHead (s : List Char) :
    Leaves (fun | .yield v => v <:+ s | .done r => r <:+ s) (· <:+ s) (itemHead s) := by
  cases hs : trimLeft s with
  | nil =>
      rw [itemHead_nil hs]
      exact List.nil_suffix
  | cons c t =>
      rw [itemHead_cons hs]
      by_cases hbracket : c = ']'
      · rw [if_pos hbracket]
        exact (IsBehind.of_trimLeft hs).1
      · rw [if_neg hbracket]
        exact (hs ▸ trimLeft_suffix s : c :: t <:+ s)

/-! ### Iterations -/

theorem leaves_readAssigned (hvalue : ∀ v, v.length ≤ u.length → Advances v (reading (readValue v))) :
    Leaves (fun p => p.2 <:+ u) (· <:+ u) (readAssigned u) := by
  unfold readAssigned
  cases hassigned : assignedText? u with
  | none => exact trimLeft_suffix u
  | some v =>
      have hv := isBehind_assignedText hassigned
      exact (hvalue v (Nat.le_of_lt hv.2)).mono (fun _ h => h.1.trans hv.1) fun _ h => h.trans hv.1

theorem memberStep_advances (hvalue : ∀ v, v.length ≤ s.length → Advances v (reading (readValue v)))
    (closer : Option Char) (m : Bag) : IterationAdvances s (memberStep closer m s) := by
  have hhead := leaves_memberHead closer s
  cases hnext : memberHead closer s with
  | error f =>
      rw [hnext] at hhead
      unfold memberStep
      rw [hnext]
      exact hhead
  | ok o =>
      rw [hnext] at hhead
      cases o with
      | ends r =>
          unfold memberStep
          rw [hnext]
          exact hhead
      | key k u =>
          have hu : IsBehind u s := hhead
          rw [memberStep_key hnext]
          have hassigned := leaves_readAssigned fun v hv => hvalue v (Nat.le_trans hv (Nat.le_of_lt hu.2))
          exact leaves_separated (hassigned.mono (fun _ h => h) fun _ h => h.trans hu.1)
            (fun _ _ hr ht => .of_suffix (hr.trans ht) hu) (fun _ _ hr ht => (hr.trans ht).trans hu.1) _ _ _

theorem itemStep_advances (hvalue : ∀ v, v.length ≤ s.length → Advances v (reading (readValue v)))
    (xs : List Value) : IterationAdvances s (itemStep xs s) := by
  have hhead := leaves_itemHead s
  unfold itemStep
  cases hnext : itemHead s with
  | error f =>
      rw [hnext] at hhead
      exact hhead
  | ok o =>
      rw [hnext] at hhead
      cases o with
      | done r => exact hhead
      | yield v =>
          have hv : v <:+ s := hhead
          have hread : Leaves (fun p => IsBehind p.2 v) (· <:+ s) (reading (readValue v)) :=
            (hvalue v hv.length_le).mono (fun _ h => h) fun _ h => h.trans hv
          exact leaves_separated (A := (IsBehind · v)) hread
            (fun _ _ hr ht => .of_suffix hr (ht.trans_suffix hv)) (fun _ _ hr ht => (hr.trans ht.1).trans hv) _ _ _

/-! ### Loops -/

/-- What holds of the last iteration of a loop, and goes back from the text that an iteration leaves to the text of the
iteration, holds of the loop. -/
theorem Repeats.rec_on_length {step : σ → List Char → Iteration σ}
    {run : σ → List Char → Except ReadFault (σ × List Char)} (hrun : Repeats step run) {n : Nat}
    {Q : σ → List Char → Except ReadFault (σ × List Char) → Prop}
    (hadvances : ∀ y s, s.length ≤ n → IterationAdvances s (step y s))
    (hfailed : ∀ y s f, s.length ≤ n → step y s = .error f → Q y s (.error f))
    (hended : ∀ y s p, s.length ≤ n → step y s = .ok (.done p) → Q y s (.ok p))
    (hagain : ∀ y s p x, s.length ≤ n → step y s = .ok (.yield p) → Q p.1 p.2 x → Q y s x)
    (y : σ) (s : List Char) (hs : s.length ≤ n) : Q y s (run y s) := by
  rw [hrun y s]
  have hstep := hadvances y s hs
  cases hnext : step y s with
  | error f => exact hfailed y s f hs hnext
  | ok o =>
      cases o with
      | done p => exact hended y s p hs hnext
      | yield p =>
          rw [hnext] at hstep
          have hshorter : p.2.length < s.length := hstep.2
          have hothers : Q p.1 p.2 (run p.1 p.2) :=
            hrun.rec_on_length hadvances hfailed hended hagain p.1 p.2 (by omega)
          exact hagain y s p _ hs hnext hothers
termination_by s.length

theorem Repeats.leaves {step : σ → List Char → Iteration σ}
    {run : σ → List Char → Except ReadFault (σ × List Char)} (hrun : Repeats step run) {n : Nat}
    (hadvances : ∀ y s, s.length ≤ n → IterationAdvances s (step y s)) (y : σ) (s : List Char)
    (hs : s.length ≤ n) : Leaves (fun p => p.2 <:+ s) (· <:+ s) (run y s) := by
  refine hrun.rec_on_length (Q := fun _ s x => Leaves (fun p => p.2 <:+ s) (· <:+ s) x) hadvances ?_ ?_ ?_ y s hs
  · intro y s f hs hnext
    have hstep := hadvances y s hs
    rw [hnext] at hstep
    exact hstep
  · intro y s p hs hnext
    have hstep := hadvances y s hs
    rw [hnext] at hstep
    exact hstep
  · intro y s p x hs hnext hx
    have hstep := hadvances y s hs
    rw [hnext] at hstep
    have hleft : IsBehind p.2 s := hstep
    exact hx.mono (fun _ h => h.trans hleft.1) fun _ h => h.trans hleft.1

theorem advances_inside {x : Except ReadFault (σ × List Char)} (h : Leaves (fun p => p.2 <:+ t) (· <:+ t) x)
    (ht : IsBehind t s) (make : σ → Value) : Advances s (x.map fun p => (make p.1, p.2)) :=
  .of_map (h.mono (fun _ hr => .of_suffix hr ht) fun _ hr => hr.trans ht.1)

/-- A value that is read is taken off its text. -/
theorem advances_readValue (s : List Char) : Advances s (reading (readValue s)) := by
  rw [reading_readValue]
  have hhead := leaves_valueHead s
  cases hvalue : valueHead s with
  | error f =>
      rw [hvalue] at hhead
      exact hhead
  | ok o =>
      rw [hvalue] at hhead
      cases o with
      | whole x r => exact hhead
      | object t =>
          -- A value inside the bracket begins behind it, so it is shorter than `s`.
          have ht : IsBehind t s := .of_trimLeft hhead
          have hloop := (repeats_members (some '\x7d')).leaves (n := t.length)
            (fun m u hu => memberStep_advances (s := u) (fun v hv =>
              have : v.length < s.length := Nat.lt_of_le_of_lt (Nat.le_trans hv hu) ht.2
              advances_readValue v) _ m) [] t (Nat.le_refl _)
          exact advances_inside hloop ht .object
      | array t =>
          have ht : IsBehind t s := .of_trimLeft hhead
          have hloop := repeats_items.leaves (n := t.length)
            (fun xs u hu => itemStep_advances (s := u) (fun v hv =>
              have : v.length < s.length := Nat.lt_of_le_of_lt (Nat.le_trans hv hu) ht.2
              advances_readValue v) xs) [] t (Nat.le_refl _)
          rw [← reading_readItems] at hloop
          exact advances_inside hloop ht .array
termination_by s.length

theorem iterationAdvances_memberStep (closer : Option Char) (m : Bag) (s : List Char) :
    IterationAdvances s (memberStep closer m s) := memberStep_advances (fun v _ => advances_readValue v) closer m

theorem iterationAdvances_itemStep (xs : List Value) (s : List Char) : IterationAdvances s (itemStep xs s) :=
  itemStep_advances (fun v _ => advances_readValue v) xs

/-! ### Positions -/

/-- The text `r` is what stands behind a position of `text`, which is `p` or further on. -/
def FollowsFrom (text : List Char) (p : Nat) (r : List Char) : Prop :=
  ∃ q, p ≤ q ∧ q ≤ text.length ∧ r = text.drop q

/-- A reader that starts at the position `p` ends at a later one; if it fails, it stops at a position of the text. -/
def MovesOn (text : List Char) (p : Nat) (x : Except ReadFault (α × List Char)) : Prop :=
  Leaves (fun a => FollowsFrom text (p + 1) a.2) (FollowsFrom text p) x

/-- An iteration that starts at the position `p` ends at a later one, or ends the loop or fails at a position of the
text. -/
def IterationMovesOn (text : List Char) (p : Nat) (i : Iteration σ) : Prop :=
  Leaves (LeftBy (FollowsFrom text (p + 1)) (FollowsFrom text p)) (FollowsFrom text p) i

section

variable {text : List Char} {p : Nat}

theorem followsFrom_of_length {q : Nat} (h : r <:+ text) (hr : r.length + q ≤ text.length) : FollowsFrom text q r :=
  ⟨text.length - r.length, by omega, by omega, List.suffix_iff_eq_drop.mp h⟩

theorem followsFrom_of_suffix (hp : p ≤ text.length) (h : r <:+ text.drop p) : FollowsFrom text p r := by
  have hlength := h.length_le
  rw [List.length_drop] at hlength
  exact followsFrom_of_length (h.trans (List.drop_suffix p text)) (by omega)

theorem followsFrom_of_isBehind (h : IsBehind r (text.drop p)) : FollowsFrom text (p + 1) r := by
  have hlength := h.2
  rw [List.length_drop] at hlength
  exact followsFrom_of_length (h.1.trans (List.drop_suffix p text)) (by omega)

theorem Advances.movesOn {x : Except ReadFault (α × List Char)} (h : Advances (text.drop p) x)
    (hp : p ≤ text.length) : MovesOn text p x :=
  h.mono (fun _ => followsFrom_of_isBehind) fun _ => followsFrom_of_suffix hp

theorem IterationAdvances.movesOn {i : Iteration σ} (h : IterationAdvances (text.drop p) i)
    (hp : p ≤ text.length) : IterationMovesOn text p i := by
  refine h.mono (fun o ho => ?_) fun _ => followsFrom_of_suffix hp
  cases o with
  | done a => exact followsFrom_of_suffix hp ho
  | yield a => exact followsFrom_of_isBehind ho

end

end HeaderReflection.Attribute
