import HeaderReflection.Proofs.Attribute.Words

/-! # Iterations of the reader of attribute lists

Members and items are read by two loops that call each other through the values.  They are written as
recursive functions, with the rest of the text in their answers.  What is proved of them, however, is about
single rounds of a loop, so here each of them is taken apart into rounds.

* What stands next says how an iteration begins: a list ends, or a key or a value begins there (`memberHead`,
  `itemHead`, `valueHead`).
* An iteration ends its loop, fails, or leaves a text for the next one (`memberStep`, `itemStep`), which is an
  `Iteration`.
* The readers repeat these iterations and do nothing else (`repeats_members`, `repeats_items`), in the sense
  of `Repeats`.  A value that begins with a bracket is such a loop (`reading_readValue`).

The readers carry a proof that the text which they leave is shorter; `reading` forgets it.  Whoever proves
something of the readers opens none of them again: a property of one iteration goes to the loop by
`Repeats.of_done`, `Repeats.of_error` and `Repeats.of_yield`. -/

namespace HeaderReflection.Attribute

open Text

/-! ### Loops -/

variable {α σ : Type} {P : List Char → Prop} {s t u v : List Char} {c : Char} {closer : Option Char}

/-- What a reader answers and leaves, without the proof that this is shorter. -/
def reading (x : Except ReadFault (α × { r : List Char // P r })) : Except ReadFault (α × List Char) :=
  x.map fun p => (p.1, p.2.1)

/-- What an iteration of a loop answers: the loop ends, or goes on in the text that is left. -/
abbrev Iteration (σ : Type) := Except ReadFault (ForInStep (σ × List Char))

/-- The end of an iteration, which adds a value to what is read and takes the separator behind it. -/
def separated (fault : ListFault) (stop : List Char → Bool) (add : Value → σ) :
    Except ReadFault (Value × List Char) → Iteration σ
  | .error f => .error f
  | .ok p => (readSeparator fault stop p.2).map fun w => .yield (add p.1, w.1)

/-- The reader `run` repeats the iterations of `step` until one of them ends the loop or fails. -/
def Repeats (step : σ → List Char → Iteration σ) (run : σ → List Char → Except ReadFault (σ × List Char)) :
    Prop :=
  ∀ y s, run y s = match step y s with
    | .error f => .error f
    | .ok (.done p) => .ok p
    | .ok (.yield p) => run p.1 p.2

section Repeats

variable {step : σ → List Char → Iteration σ} {run : σ → List Char → Except ReadFault (σ × List Char)}
  {y : σ} {p : σ × List Char}

theorem Repeats.of_done (hrun : Repeats step run) (h : step y s = .ok (.done p)) : run y s = .ok p := by
  rw [hrun y s, h]

theorem Repeats.of_error {f : ReadFault} (hrun : Repeats step run) (h : step y s = .error f) :
    run y s = .error f := by
  rw [hrun y s, h]

theorem Repeats.of_yield (hrun : Repeats step run) (h : step y s = .ok (.yield p)) : run y s = run p.1 p.2 := by
  rw [hrun y s, h]

end Repeats

/-! ### Values -/

/-- What a value begins with. -/
inductive ValueHead where
  /-- A curly bracket in front of members. -/
  | object (inside : List Char)
  /-- A square bracket in front of items. -/
  | array (inside : List Char)
  /-- A string or a word, which is all of the value. -/
  | whole (value : Value) (rest : List Char)

/-- A value that is a word, unless that has no value. -/
def wordHead (s : List Char) : Except ReadFault ValueHead :=
  match convertWord (readWord s).1 with
  | .ok v => .ok (.whole v (readWord s).2)
  | .error e => .error ⟨.overlong e, (readWord s).2⟩

/-- Looks at what a value begins with. -/
def valueHead (s : List Char) : Except ReadFault ValueHead :=
  match trimLeft s with
  | [] => .error ⟨.noValue, []⟩
  | c :: t =>
    if c = '\x7b' then .ok (.object t)
    else if c = '[' then .ok (.array t)
    else if isQuote c then (readString c t).map fun p => .whole (.str (String.ofList p.1)) p.2
    else if (readWord (c :: t)).1 = [] then .error ⟨.noValue, c :: t⟩
    else wordHead (c :: t)

theorem valueHead_nil (hs : trimLeft s = []) : valueHead s = .error ⟨.noValue, []⟩ := by
  unfold valueHead
  rw [hs]

theorem valueHead_cons (hs : trimLeft s = c :: t) :
    valueHead s =
      if c = '\x7b' then .ok (.object t)
      else if c = '[' then .ok (.array t)
      else if isQuote c then (readString c t).map fun p => .whole (.str (String.ofList p.1)) p.2
      else if (readWord (c :: t)).1 = [] then .error ⟨.noValue, c :: t⟩
      else wordHead (c :: t) := by
  unfold valueHead
  rw [hs]

/-- Behind an opening bracket a value is a loop. -/
theorem reading_readValue (s : List Char) :
    reading (readValue s) = match valueHead s with
      | .error f => .error f
      | .ok (.object t) => (reading (readMembers (some '\x7d') [] t)).map fun p => (.object p.1, p.2)
      | .ok (.array t) => (reading (readItems t)).map fun p => (.array p.1, p.2)
      | .ok (.whole x r) => .ok (x, r) := by
  unfold readValue
  split
  · rename_i htext
    rw [valueHead_nil htext]
    rfl
  · rename_i c t htext
    rw [valueHead_cons htext]
    dsimp only
    by_cases hobject : c = '\x7b'
    · rw [if_pos hobject, if_pos hobject]
      dsimp only
      cases readMembers (some '\x7d') [] t with
      | error f => rfl
      | ok p => rfl
    · rw [if_neg hobject, if_neg hobject]
      by_cases harray : c = '['
      · rw [if_pos harray, if_pos harray]
        dsimp only
        cases readItems t with
        | error f => rfl
        | ok p => rfl
      · rw [if_neg harray, if_neg harray]
        by_cases hquote : isQuote c = true
        · rw [if_pos hquote, if_pos hquote]
          split
          · rename_i x r hread
            show Except.ok (Value.str (String.ofList x), r) = _
            rw [hread]
            rfl
          · rename_i f hread
            show Except.error f = _
            rw [hread]
            rfl
        · rw [if_neg hquote, if_neg hquote]
          by_cases hword : (readWord (c :: t)).1 = []
          · rw [dif_pos hword, if_pos hword]
            rfl
          · rw [dif_neg hword, if_neg hword]
            unfold wordHead
            cases convertWord (readWord (c :: t)).1 with
            | ok v => rfl
            | error e => rfl

/-! ### Members -/

/-- What an iteration of the loop over members begins with. -/
inductive MemberHead where
  /-- The list ends, and this is left behind it. -/
  | ends (rest : List Char)
  /-- A key, and the text behind it. -/
  | key (key : List Char) (rest : List Char)

/-- Looks for the next key. -/
def memberHead (closer : Option Char) (s : List Char) : Except ReadFault MemberHead :=
  match trimLeft s, closer with
  | [], none => .ok (.ends [])
  | [], some c => .error ⟨.noCloser c, []⟩
  | c :: t, closer => if closer = some c then .ok (.ends t) else (readKey (c :: t)).map fun p => .key p.1 p.2

/-- The text that begins with the value of a key, if one is assigned. -/
def assignedText? (u : List Char) : Option (List Char) :=
  match trimLeft u with
  | [] => none
  | c :: v => if c = '=' ∨ c = ':' then some v else none

/-- The value of a key, and the text behind it. -/
def readAssigned (u : List Char) : Except ReadFault (Value × List Char) :=
  match assignedText? u with
  | some v => reading (readValue v)
  | none => .ok (.bool true, trimLeft u)

/-- A list may end in front of its closing bracket, or where the text ends. -/
def atCloser (closer : Option Char) (r : List Char) : Bool := r.isEmpty || r.head? == closer

/-- One iteration of the loop over members, which assigns to `m`. -/
def memberStep (closer : Option Char) (m : Bag) (s : List Char) : Iteration Bag :=
  match memberHead closer s with
  | .error f => .error f
  | .ok (.ends r) => .ok (.done (m, r))
  | .ok (.key k u) => separated .noComma (atCloser closer) (m.put (String.ofList k)) (readAssigned u)

theorem memberHead_nil (hs : trimLeft s = []) (closer : Option Char) :
    memberHead closer s = match closer with
      | none => .ok (.ends [])
      | some c => .error ⟨.noCloser c, []⟩ := by
  unfold memberHead
  rw [hs]
  cases closer with
  | none => rfl
  | some c => rfl

theorem memberHead_cons (hs : trimLeft s = c :: t) (closer : Option Char) :
    memberHead closer s =
      if closer = some c then .ok (.ends t) else (readKey (c :: t)).map fun p => .key p.1 p.2 := by
  unfold memberHead
  rw [hs]

theorem readAssigned_nil (hu : trimLeft u = []) : readAssigned u = .ok (.bool true, []) := by
  unfold readAssigned assignedText?
  rw [hu]

theorem readAssigned_cons {e : Char} (hu : trimLeft u = e :: v) :
    readAssigned u = if e = '=' ∨ e = ':' then reading (readValue v) else .ok (.bool true, e :: v) := by
  unfold readAssigned assignedText?
  rw [hu]
  dsimp only
  by_cases he : e = '=' ∨ e = ':'
  · rw [if_pos he, if_pos he]
  · rw [if_neg he, if_neg he]

theorem memberStep_key {k : List Char} (h : memberHead closer s = .ok (.key k u)) (m : Bag) :
    memberStep closer m s =
      separated .noComma (atCloser closer) (m.put (String.ofList k)) (readAssigned u) := by
  unfold memberStep
  rw [h]

theorem repeats_members (closer : Option Char) :
    Repeats (memberStep closer) fun m s => reading (readMembers closer m s) := by
  intro m s
  dsimp only
  rw [readMembers.eq_def]
  split
  · rename_i htext
    unfold memberStep
    rw [memberHead_nil htext]
    cases closer with
    | none => rfl
    | some c => rfl
  · rename_i c t htext
    have hhead := memberHead_cons htext closer
    extract_lets hs stop
    by_cases hcloser : closer = some c
    · unfold memberStep
      rw [hhead, if_pos hcloser, if_pos hcloser]
      rfl
    · rw [if_neg hcloser]
      split
      · rename_i f hkey
        unfold memberStep
        rw [hhead, if_neg hcloser, hkey]
        rfl
      · rename_i k u hkey
        have hstep := memberStep_key (k := k) (u := u) (by rw [hhead, if_neg hcloser, hkey]; rfl) m
        rw [hstep]
        extract_lets hu assigned
        have hassigned : reading assigned = readAssigned u := by
          dsimp only [assigned]
          split
          · rename_i e v hbehind
            rw [readAssigned_cons hbehind]
            by_cases he : e = '=' ∨ e = ':'
            · rw [if_pos he, if_pos he]
              cases readValue v with
              | error f => rfl
              | ok p => rfl
            · rw [if_neg he, if_neg he]
              rfl
          · rename_i hbehind
            rw [readAssigned_nil hbehind]
            rfl
        clear_value assigned
        rw [← hassigned]
        cases assigned with
        | error f => rfl
        | ok p =>
            dsimp only [separated, stop, reading, Except.map]
            unfold atCloser
            cases readSeparator .noComma (fun r => r.isEmpty || r.head? == closer) p.2.1 with
            | error f => rfl
            | ok w =>
                dsimp only
                cases readMembers closer (m.put (String.ofList k) p.1) w.1 with
                | error f => rfl
                | ok q => rfl

/-! ### Items -/

/-- What an iteration of the loop over items begins with: the closing bracket, with what is left behind it, or a text
that begins with a value. -/
def itemHead (s : List Char) : Except ReadFault (ForInStep (List Char)) :=
  match trimLeft s with
  | [] => .error ⟨.noBracket, []⟩
  | c :: t => if c = ']' then .ok (.done t) else .ok (.yield (c :: t))

/-- Whether an array may end in front of a text. -/
def atBracket (r : List Char) : Bool := r.head? == some ']'

/-- One iteration of the loop over items, which appends to `xs`. -/
def itemStep (xs : List Value) (s : List Char) : Iteration (List Value) :=
  match itemHead s with
  | .error f => .error f
  | .ok (.done r) => .ok (.done (xs, r))
  | .ok (.yield v) => separated .noCommaOrBracket atBracket (fun x => xs ++ [x]) (reading (readValue v))

/-- The items that are read behind those of `xs`, together with these. -/
def readItemsBehind (xs : List Value) (s : List Char) : Except ReadFault (List Value × List Char) :=
  (reading (readItems s)).map fun p => (xs ++ p.1, p.2)

theorem reading_readItems (s : List Char) : reading (readItems s) = readItemsBehind [] s := by
  unfold readItemsBehind
  cases reading (readItems s) with
  | error f => rfl
  | ok p => rfl

theorem itemHead_nil (hs : trimLeft s = []) : itemHead s = .error ⟨.noBracket, []⟩ := by
  unfold itemHead
  rw [hs]

theorem itemHead_cons (hs : trimLeft s = c :: t) :
    itemHead s = if c = ']' then .ok (.done t) else .ok (.yield (c :: t)) := by
  unfold itemHead
  rw [hs]

theorem repeats_items : Repeats itemStep readItemsBehind := by
  intro xs s
  unfold readItemsBehind itemStep
  rw [readItems.eq_def]
  split
  · rename_i htext
    rw [itemHead_nil htext]
    rfl
  · rename_i c t htext
    rw [itemHead_cons htext]
    extract_lets hs
    by_cases hbracket : c = ']'
    · rw [if_pos hbracket, if_pos hbracket]
      exact congrArg (fun ys => Except.ok (ys, t)) (List.append_nil xs)
    · rw [if_neg hbracket, if_neg hbracket]
      dsimp only
      cases readValue (c :: t) with
      | error f => rfl
      | ok p =>
          dsimp only [separated, reading, Except.map]
          unfold atBracket
          cases readSeparator .noCommaOrBracket (fun u => u.head? == some ']') p.2.1 with
          | error f => rfl
          | ok w =>
              dsimp only
              cases readItems w.1 with
              | error f => rfl
              | ok q => exact congrArg (fun ys => Except.ok (ys, q.2.1)) (List.append_cons xs p.1 q.1)

end HeaderReflection.Attribute
