import HeaderReflection.Proofs.Attribute.Progress

/-! # How often the reader of attribute lists goes round

The work of a reader is the number of iterations of all the loops that it runs, and the number of brackets
that it opens (`Work`).  An iteration that is not the last of its loop takes a character that no other
iteration takes, and behind each opened bracket, as for the whole list, one loop has a last iteration.  So
there are no more iterations than characters and opened brackets and one (`reader_progress`).

The work is counted by functions beside the readers (`valueWork`, `membersWork`, `itemsWork`).  They follow
the same recursion, so each of them equals the sum over the iterations that the reader repeats (`CountsLoop`).

The bound itself is stated of a reader and the text that it leaves (`Work.Fits`), since the characters that
are left are still to be used up.  With it costs add up along the text: an iteration is charged to the first
character that it takes, an opened bracket pays for the last iteration of the loop behind it, and what an
inner value leaves is where the outer loop goes on.  A reader that fails has used up no more than the whole
text. -/

namespace HeaderReflection.Attribute

open Text

/-! ### Amounts of work -/

variable {σ : Type} {s t u v r : List Char} {closer : Option Char}

/-- Iterations of loops, and brackets that are opened. -/
structure Work where
  iterations : Nat
  brackets : Nat
  deriving DecidableEq, Repr

namespace Work

instance : Zero Work := ⟨⟨0, 0⟩⟩

instance : Add Work := ⟨fun w x => ⟨w.iterations + x.iterations, w.brackets + x.brackets⟩⟩

/-- One iteration of a loop. -/
def iteration : Work := ⟨1, 0⟩

/-- A bracket is opened. -/
def bracket : Work := ⟨0, 1⟩

@[simp] theorem iterations_zero : (0 : Work).iterations = 0 := rfl
@[simp] theorem brackets_zero : (0 : Work).brackets = 0 := rfl
@[simp] theorem iterations_add (w x : Work) : (w + x).iterations = w.iterations + x.iterations := rfl
@[simp] theorem brackets_add (w x : Work) : (w + x).brackets = w.brackets + x.brackets := rfl
@[simp] theorem iterations_iteration : iteration.iterations = 1 := rfl
@[simp] theorem brackets_iteration : iteration.brackets = 0 := rfl
@[simp] theorem iterations_bracket : bracket.iterations = 0 := rfl
@[simp] theorem brackets_bracket : bracket.brackets = 1 := rfl
@[simp] theorem add_zero (w : Work) : w + 0 = w := rfl

end Work

/-! ### Counting -/

/-- Where the next iteration of a loop starts, if there is one. -/
def Iteration.next? : Iteration σ → Option (σ × List Char)
  | .ok (.yield p) => some p
  | _ => none

/-- The text that begins with the value that an iteration over members reads, if it reads one. -/
def memberValue? (closer : Option Char) (s : List Char) : Option (List Char) :=
  match memberHead closer s with
  | .ok (.key _ u) => assignedText? u
  | _ => none

/-- The text that begins with the value that an iteration over items reads, if it reads one. -/
def itemValue? (s : List Char) : Option (List Char) :=
  match itemHead s with
  | .ok (.yield v) => some v
  | _ => none

theorem memberValue?_key {k : List Char} (h : memberHead closer s = .ok (.key k u)) :
    memberValue? closer s = assignedText? u := by
  unfold memberValue?
  rw [h]

theorem length_memberValue_le (h : memberValue? closer s = some v) : v.length ≤ s.length := by
  have hhead := leaves_memberHead closer s
  unfold memberValue? at h
  split at h
  · rename_i k u hnext
    rw [hnext] at hhead
    exact Nat.le_trans (isBehind_assignedText h).1.length_le hhead.1.length_le
  · cases h

theorem length_itemValue_le (h : itemValue? s = some v) : v.length ≤ s.length := by
  have hhead := leaves_itemHead s
  unfold itemValue? at h
  split at h
  · rename_i u hnext
    rw [hnext] at hhead
    cases h
    exact hhead.length_le
  · cases h

theorem trimLeft_of_object (h : valueHead s = .ok (.object t)) : trimLeft s = '\x7b' :: t := by
  have hhead := leaves_valueHead s
  rw [h] at hhead
  exact hhead

theorem trimLeft_of_array (h : valueHead s = .ok (.array t)) : trimLeft s = '[' :: t := by
  have hhead := leaves_valueHead s
  rw [h] at hhead
  exact hhead

theorem length_lt_of_next {i : Iteration σ} {p : σ × List Char} (hi : IterationAdvances s i)
    (hp : i.next? = some p) : p.2.length < s.length := by
  unfold Iteration.next? at hp
  split at hp
  · cases hp
    exact hi.2
  · cases hp

mutual

/-- The work of reading a value. -/
def valueWork (s : List Char) : Work :=
  match hs : valueHead s with
  | .ok (.object t) =>
    have : t.length < s.length := (IsBehind.of_trimLeft (trimLeft_of_object hs)).2
    .bracket + membersWork (some '\x7d') [] t
  | .ok (.array t) =>
    have : t.length < s.length := (IsBehind.of_trimLeft (trimLeft_of_array hs)).2
    .bracket + itemsWork [] t
  | _ => 0
termination_by 2 * s.length
decreasing_by all_goals omega

/-- The work of reading members: an iteration, the value that is read in it, and what the loop does after it. -/
def membersWork (closer : Option Char) (m : Bag) (s : List Char) : Work :=
  .iteration
    + (memberValue? closer s).pelim 0 (fun v hv =>
      have : v.length ≤ s.length := length_memberValue_le hv
      valueWork v)
    + (memberStep closer m s).next?.pelim 0 fun p hp =>
      have : p.2.length < s.length := length_lt_of_next (iterationAdvances_memberStep closer m s) hp
      membersWork closer p.1 p.2
termination_by 2 * s.length + 1
decreasing_by all_goals omega

/-- The work of reading items. -/
def itemsWork (xs : List Value) (s : List Char) : Work :=
  .iteration
    + (itemValue? s).pelim 0 (fun v hv =>
      have : v.length ≤ s.length := length_itemValue_le hv
      valueWork v)
    + (itemStep xs s).next?.pelim 0 fun p hp =>
      have : p.2.length < s.length := length_lt_of_next (iterationAdvances_itemStep xs s) hp
      itemsWork p.1 p.2
termination_by 2 * s.length + 1
decreasing_by all_goals omega

end

theorem valueWork_eq (s : List Char) : valueWork s = match valueHead s with
    | .ok (.object t) => .bracket + membersWork (some '\x7d') [] t
    | .ok (.array t) => .bracket + itemsWork [] t
    | _ => 0 := by
  rw [valueWork]
  split
  · rename_i t ht
    show Work.bracket + membersWork (some '\x7d') [] t = _
    rw [ht]
  · rename_i t ht
    show Work.bracket + itemsWork [] t = _
    rw [ht]
  · rename_i hobject harray
    split
    · exact absurd ‹_› (hobject _)
    · exact absurd ‹_› (harray _)
    · rfl

/-- The work of the first iteration of a loop that reads the value which `value?` names. -/
def firstWork (value? : List Char → Option (List Char)) (s : List Char) : Work :=
  .iteration + (value? s).elim 0 valueWork

/-- The work of a loop is that of its first iteration and of the iterations behind it. -/
def CountsLoop (step : σ → List Char → Iteration σ) (value? : List Char → Option (List Char))
    (work : σ → List Char → Work) : Prop :=
  ∀ y s, work y s = firstWork value? s + (step y s).next?.elim 0 fun p => work p.1 p.2

theorem countsLoop_members (closer : Option Char) :
    CountsLoop (memberStep closer) (memberValue? closer) (membersWork closer) := by
  intro m s
  rw [membersWork, Option.pelim_eq_elim, Option.pelim_eq_elim]
  rfl

theorem countsLoop_items : CountsLoop itemStep itemValue? itemsWork := by
  intro xs s
  rw [itemsWork, Option.pelim_eq_elim, Option.pelim_eq_elim]
  rfl

/-! ### Work that fits a text -/

/-- Opening brackets in a text, those in strings included. -/
def openers (s : List Char) : Nat := s.countP fun c => c == '\x7b' || c == '['

@[simp] theorem openers_nil : openers [] = 0 := rfl

theorem openers_le_of_suffix (h : r <:+ s) : openers r ≤ openers s := h.sublist.countP_le

theorem openers_lt_of_trimLeft {c : Char} (hs : trimLeft s = c :: t) (hc : c = '\x7b' ∨ c = '[') :
    openers t < openers s := by
  have hle : openers (c :: t) ≤ openers s := openers_le_of_suffix (hs ▸ trimLeft_suffix s)
  have hopener : openers (c :: t) = openers t + 1 := List.countP_cons_of_pos (by simpa using hc)
  omega

/-- The work `w` goes from the text `s` to its end `r`: the characters between the two, the opened brackets and one are
more than the iterations by `k`, and the brackets are among these characters. -/
structure Work.Fits (k : Nat) (w : Work) (s r : List Char) : Prop where
  iterations : w.iterations + r.length + k ≤ s.length + w.brackets + 1
  brackets : w.brackets + openers r ≤ openers s

namespace Work.Fits

variable {k l : Nat} {w x : Work}

theorem zero (h : r <:+ s) : Fits 1 0 s r where
  iterations := by
    have := h.length_le
    simp only [Work.iterations_zero, Work.brackets_zero]
    omega
  brackets := by simpa using openers_le_of_suffix h

theorem mono (h : w.Fits k s r) (hk : l ≤ k) (hr : t <:+ r) : w.Fits l s t where
  iterations := by
    have := h.iterations
    have := hr.length_le
    omega
  brackets := by
    have := h.brackets
    have := openers_le_of_suffix hr
    omega

theorem within (h : w.Fits k t r) (ht : t <:+ s) : w.Fits k s r where
  iterations := by
    have := h.iterations
    have := ht.length_le
    omega
  brackets := Nat.le_trans h.brackets (openers_le_of_suffix ht)

theorem behind (h : w.Fits k t r) (ht : IsBehind t s) : w.Fits (k + 1) s r where
  iterations := by
    have := h.iterations
    have := ht.2
    omega
  brackets := Nat.le_trans h.brackets (openers_le_of_suffix ht.1)

theorem iteration (h : w.Fits (k + 1) s r) : (.iteration + w : Work).Fits k s r where
  iterations := by
    have := h.iterations
    simp only [Work.iterations_add, Work.brackets_add, Work.iterations_iteration, Work.brackets_iteration]
    omega
  brackets := by simpa using h.brackets

theorem bracket (h : w.Fits k t r) (ht : IsBehind t s) (hopener : openers t < openers s) :
    (.bracket + w : Work).Fits (k + 2) s r where
  iterations := by
    have := h.iterations
    have := ht.2
    simp only [Work.iterations_add, Work.brackets_add, Work.iterations_bracket, Work.brackets_bracket]
    omega
  brackets := by
    have := h.brackets
    simp only [Work.brackets_add, Work.brackets_bracket]
    omega

theorem add (hw : w.Fits 1 s t) (hx : x.Fits k t r) : (w + x).Fits k s r where
  iterations := by
    have := hw.iterations
    have := hx.iterations
    simp only [Work.iterations_add, Work.brackets_add]
    omega
  brackets := by
    have := hw.brackets
    have := hx.brackets
    simp only [Work.brackets_add]
    omega

end Work.Fits

/-- The work of a value fits what is read; if reading it fails, the whole text. -/
def ValueFits (s : List Char) : Prop :=
  Leaves (fun p => (valueWork s).Fits 2 s p.2) (fun _ => (valueWork s).Fits 1 s []) (reading (readValue s))

/-- The work of an iteration fits what is read, the character apart that the iteration itself is charged to. -/
def IterationFits (w : Work) (s : List Char) (i : Iteration σ) : Prop :=
  Leaves (LeftBy (w.Fits 1 s) (w.Fits 0 s)) (fun _ => w.Fits 0 s []) i

/-- The work of a loop fits what is read, but for its last iteration. -/
def LoopFits (w : Work) (s : List Char) (x : Except ReadFault (σ × List Char)) : Prop :=
  Leaves (fun p => w.Fits 0 s p.2) (fun _ => w.Fits 0 s []) x

/-! ### Values, iterations and loops -/

namespace LoopFits

variable {w : Work} {x : Except ReadFault (σ × List Char)}

theorem whole (h : LoopFits w s x) : w.Fits 0 s [] := by
  cases x with
  | error f => exact h
  | ok p =>
      have hread : w.Fits 0 s p.2 := h
      exact hread.mono (Nat.le_refl 0) List.nil_suffix

/-- The opened bracket makes up for the last iteration of the loop behind it. -/
theorem inside {c : Char} (h : LoopFits w t x) (hs : trimLeft s = c :: t) (hc : c = '\x7b' ∨ c = '[')
    (make : σ → Value) :
    Leaves (fun p => (.bracket + w : Work).Fits 2 s p.2) (fun _ => (.bracket + w : Work).Fits 1 s [])
      (x.map fun p => (make p.1, p.2)) := by
  have ht : IsBehind t s := .of_trimLeft hs
  have hopener : openers t < openers s := openers_lt_of_trimLeft hs hc
  exact .of_map (h.mono (fun _ hr => hr.bracket ht hopener) fun _ hr =>
    (hr.bracket ht hopener).mono (by omega) List.suffix_rfl)

end LoopFits

theorem fits_readAssigned (hvalue : ∀ v, v.length ≤ u.length → ValueFits v) :
    Leaves (fun p => ((assignedText? u).elim 0 valueWork).Fits 1 u p.2)
      (fun _ => ((assignedText? u).elim 0 valueWork).Fits 1 u []) (readAssigned u) := by
  unfold readAssigned
  cases hassigned : assignedText? u with
  | none => exact .zero (trimLeft_suffix u)
  | some v =>
      have hv := isBehind_assignedText hassigned
      exact (hvalue v (Nat.le_of_lt hv.2)).mono
        (fun _ h => (h.within hv.1).mono (by omega) List.suffix_rfl) fun _ h => h.within hv.1

theorem memberStep_fits (hvalue : ∀ v, v.length ≤ s.length → ValueFits v) (closer : Option Char) (m : Bag) :
    IterationFits (firstWork (memberValue? closer) s) s (memberStep closer m s) := by
  have hhead := leaves_memberHead closer s
  cases hnext : memberHead closer s with
  | error f =>
      unfold memberStep firstWork memberValue?
      rw [hnext]
      exact (Work.Fits.zero List.nil_suffix).iteration
  | ok o =>
      rw [hnext] at hhead
      cases o with
      | ends r =>
          unfold memberStep firstWork memberValue?
          rw [hnext]
          exact (Work.Fits.zero hhead).iteration
      | key k u =>
          have hu : IsBehind u s := hhead
          unfold firstWork
          rw [memberStep_key hnext, memberValue?_key hnext]
          -- The key has at least one character; the iteration is charged to it.
          have hassigned := fits_readAssigned fun v hv => hvalue v (Nat.le_trans hv (Nat.le_of_lt hu.2))
          exact leaves_separated
            (hassigned.mono (fun _ h => (h.behind hu).iteration) fun _ h =>
              ((h.behind hu).iteration).mono (by omega) List.suffix_rfl)
            (fun _ _ hr h => h.mono (by omega) hr) (fun _ _ _ h => h.mono (by omega) List.nil_suffix) _ _ _

theorem itemStep_fits (hvalue : ∀ v, v.length ≤ s.length → ValueFits v) (xs : List Value) :
    IterationFits (firstWork itemValue? s) s (itemStep xs s) := by
  have hhead := leaves_itemHead s
  unfold itemStep firstWork itemValue?
  cases hnext : itemHead s with
  | error f => exact (Work.Fits.zero List.nil_suffix).iteration
  | ok o =>
      rw [hnext] at hhead
      cases o with
      | done r => exact (Work.Fits.zero hhead).iteration
      | yield v =>
          -- The iteration is charged to the first character of the value.
          have hv : v <:+ s := hhead
          exact leaves_separated
            ((hvalue v hv.length_le).mono (fun _ h => (h.within hv).iteration) fun _ h => (h.within hv).iteration)
            (fun _ _ hr h => h.mono (by omega) hr) (fun _ _ _ h => h.mono (by omega) List.nil_suffix) _ _ _

theorem Repeats.fits {step : σ → List Char → Iteration σ}
    {run : σ → List Char → Except ReadFault (σ × List Char)} {value? : List Char → Option (List Char)}
    {work : σ → List Char → Work} (hrun : Repeats step run) (hwork : CountsLoop step value? work) {n : Nat}
    (hadvances : ∀ y s, IterationAdvances s (step y s))
    (hstep : ∀ y s, s.length ≤ n → IterationFits (firstWork value? s) s (step y s)) (y : σ) (s : List Char)
    (hs : s.length ≤ n) : LoopFits (work y s) s (run y s) := by
  refine hrun.rec_on_length (Q := fun y s x => LoopFits (work y s) s x) (fun y s _ => hadvances y s) ?_ ?_ ?_ y s hs
  · intro y s f hs hnext
    have hfirst := hstep y s hs
    rw [hwork y s]
    rw [hnext] at hfirst ⊢
    exact hfirst
  · intro y s p hs hnext
    have hfirst := hstep y s hs
    rw [hwork y s]
    rw [hnext] at hfirst ⊢
    exact hfirst
  · intro y s p x hs hnext hx
    have hfirst := hstep y s hs
    rw [hwork y s]
    rw [hnext] at hfirst ⊢
    exact hx.mono (fun _ h => .add hfirst h) fun _ h => .add hfirst h

/-- Reading a value fits its text. -/
theorem value_fits (s : List Char) : ValueFits s := by
  unfold ValueFits
  rw [reading_readValue, valueWork_eq]
  have hhead := leaves_valueHead s
  cases hvalue : valueHead s with
  | error f => exact .zero List.nil_suffix
  | ok o =>
      rw [hvalue] at hhead
      cases o with
      | whole x r => exact (Work.Fits.zero List.suffix_rfl).behind hhead
      | object t =>
          have ht : IsBehind t s := .of_trimLeft hhead
          have hloop := (repeats_members (some '\x7d')).fits (countsLoop_members (some '\x7d')) (n := t.length)
            (iterationAdvances_memberStep _)
            (fun m u hu => memberStep_fits (s := u) (fun v hv =>
              have : v.length < s.length := Nat.lt_of_le_of_lt (Nat.le_trans hv hu) ht.2
              value_fits v) _ m) [] t (Nat.le_refl _)
          exact hloop.inside hhead (.inl rfl) .object
      | array t =>
          have ht : IsBehind t s := .of_trimLeft hhead
          have hloop := repeats_items.fits countsLoop_items (n := t.length) iterationAdvances_itemStep
            (fun xs u hu => itemStep_fits (s := u) (fun v hv =>
              have : v.length < s.length := Nat.lt_of_le_of_lt (Nat.le_trans hv hu) ht.2
              value_fits v) xs) [] t (Nat.le_refl _)
          rw [← reading_readItems] at hloop
          exact hloop.inside hhead (.inr rfl) .array
termination_by s.length

theorem members_fits (closer : Option Char) (m : Bag) (s : List Char) :
    LoopFits (membersWork closer m s) s (reading (readMembers closer m s)) :=
  (repeats_members closer).fits (countsLoop_members closer) (iterationAdvances_memberStep closer)
    (fun y _ _ => memberStep_fits (fun v _ => value_fits v) closer y) m s (Nat.le_refl _)

/-! ### The bound -/

/-- The reader of attribute lists makes progress within its text, and ends. -/
theorem reader_progress {text : List Char} {p : Nat} (hp : p ≤ text.length) :
    (MovesOn text p (readKey (text.drop p)) ∧
      (∀ q s, isQuote q = true → text.drop p = q :: s → MovesOn text p (readString q s)) ∧
      MovesOn text p (reading (readValue (text.drop p)))) ∧
    ((∀ closer, Repeats (memberStep closer) fun m s => reading (readMembers closer m s)) ∧
      (∀ closer m, IterationMovesOn text p (memberStep closer m (text.drop p)))) ∧
    ((∀ s, reading (readItems s) = readItemsBehind [] s) ∧ Repeats itemStep readItemsBehind ∧
      ∀ xs, IterationMovesOn text p (itemStep xs (text.drop p))) ∧
    readObject text = (reading (readMembers none [] text)).map Prod.fst ∧
    (membersWork none [] text).iterations ≤ text.length + (membersWork none [] text).brackets + 1 ∧
    (membersWork none [] text).brackets ≤ openers text := by
  refine ⟨⟨(advances_readKey _).movesOn hp, fun q s _ hs => ?_, (advances_readValue _).movesOn hp⟩,
    ⟨repeats_members, fun closer m => (iterationAdvances_memberStep closer m _).movesOn hp⟩,
    ⟨reading_readItems, repeats_items, fun xs => (iterationAdvances_itemStep xs _).movesOn hp⟩, ?_, ?_, ?_⟩
  · have hadvances := advances_readString q s
    rw [← hs] at hadvances
    exact hadvances.movesOn hp
  · unfold readObject reading
    cases readMembers none [] text with
    | error f => rfl
    | ok a => rfl
  · simpa using (members_fits none [] text).whole.iterations
  · simpa using (members_fits none [] text).whole.brackets

/-- The reader stops inside a text whose array and string are not closed. -/
theorem reader_progress_open :
    4 ≤ "a = [\"b".toList.length ∧
      MovesOn "a = [\"b".toList 4 (reading (readValue ("a = [\"b".toList.drop 4))) ∧
      (membersWork none [] "a = [\"b".toList).iterations ≤
        "a = [\"b".toList.length + (membersWork none [] "a = [\"b".toList).brackets + 1 := by
  have hwithin : 4 ≤ "a = [\"b".toList.length := by decide
  obtain ⟨⟨-, -, hvalue⟩, -, -, -, hwork, -⟩ := reader_progress hwithin
  exact ⟨hwithin, hvalue, hwork⟩

end HeaderReflection.Attribute
