import HeaderReflection.Attribute.Word
import HeaderReflection.Fault
import HeaderReflection.Lexer.Literal
import HeaderReflection.Text.Alphanumeric

/-! # Attribute lists

The text between the parentheses of a marker is a list of members in a permissive notation:

    Getter = false, DisplayName = "Hit Points", Tags = [a, b], Range = { min: 0, max: 10 }

A key is a word or a quoted string, `=` and `:` both come before a value, and a key without a value
is true.  Commas may trail.  Every reader returns the text behind what it has read with a proof that
this text is shorter, so that reading a list of any nesting ends; a reader that fails reports the
text at which it stopped. -/

namespace HeaderReflection.Attribute

open Text

/-! ### Faults -/

/-- A fault in a list, and the text at which it shows. -/
structure ReadFault where
  fault : ListFault
  rest : List Char
  deriving DecidableEq, Repr

/-- The fault as a cause. -/
def ReadFault.cause (f : ReadFault) : Cause :=
  match f.fault with
  | .overlong e => .overlong e
  | l => .attributeList l (String.ofList f.rest)

/-! ### Strings, keys and words -/

/-- The character that a backslash and `c` stand for. -/
def unescape (c : Char) : Char :=
  match c with
  | 'n' => '\n'
  | 't' => '\t'
  | 'r' => '\r'
  | '0' => '\x00'
  | c => c

/-- The characters up to the closing quote `q`, and the text behind it. -/
def readString (q : Char) : List Char → Except ReadFault (List Char × List Char)
  | [] => .error ⟨.openString, []⟩
  | '\\' :: c :: s => (readString q s).map fun p => (unescape c :: p.1, p.2)
  | c :: s =>
    if c = q then .ok ([], s) else (readString q s).map fun p => (c :: p.1, p.2)

/-- Characters of a key without quotes. -/
def isKeyChar (c : Char) : Bool := isAlphanumeric c || c == '_'

/-- A key, and the text behind it. -/
def readKey : List Char → Except ReadFault (List Char × List Char)
  | [] => .error ⟨.noName, []⟩
  | c :: s =>
    if isQuote c then readString c s
    else if isKeyChar c then .ok ((c :: s).takeWhile isKeyChar, (c :: s).dropWhile isKeyChar)
    else .error ⟨.noName, c :: s⟩

/-- Characters that end a word. -/
def endsWord (c : Char) : Bool := isBlank c || ",=:\x7b\x7d[]".toList.contains c

/-- A word, in which two colons count as one character, and the text behind it. -/
def readWord : List Char → List Char × List Char
  | [] => ([], [])
  | ':' :: ':' :: s => (':' :: ':' :: (readWord s).1, (readWord s).2)
  | c :: s => if endsWord c then ([], c :: s) else (c :: (readWord s).1, (readWord s).2)

/-! ### Texts get shorter -/

theorem readString_suffix {q : Char} {s v r : List Char} (h : readString q s = .ok (v, r)) :
    r <:+ s ∧ r.length < s.length := by
  fun_induction readString q s generalizing v with
  | case1 => simp at h
  | case2 c s ih =>
      cases hr : readString q s with
      | error e => simp [hr, Except.map] at h
      | ok p =>
          simp only [hr, Except.map, Except.ok.injEq, Prod.mk.injEq] at h
          obtain ⟨hs, hl⟩ := ih (v := p.1) (by rw [hr, ← h.2])
          exact ⟨hs.trans ⟨['\\', c], rfl⟩, by simp only [List.length_cons]; omega⟩
  | case3 s _ =>
      simp only [Except.ok.injEq, Prod.mk.injEq] at h
      exact h.2 ▸ ⟨List.suffix_cons _ _, by simp⟩
  | case4 c s _ _ ih =>
      cases hr : readString q s with
      | error e => simp [hr, Except.map] at h
      | ok p =>
          simp only [hr, Except.map, Except.ok.injEq, Prod.mk.injEq] at h
          obtain ⟨hs, hl⟩ := ih (v := p.1) (by rw [hr, ← h.2])
          exact ⟨hs.trans (List.suffix_cons _ _), by simp only [List.length_cons]; omega⟩

theorem readKey_suffix {s k r : List Char} (h : readKey s = .ok (k, r)) :
    r <:+ s ∧ r.length < s.length := by
  cases s with
  | nil => simp [readKey] at h
  | cons c s =>
      simp only [readKey] at h
      split at h
      · obtain ⟨hs, hl⟩ := readString_suffix h
        exact ⟨hs.trans (List.suffix_cons _ _), by simp only [List.length_cons]; omega⟩
      · split at h
        · rename_i hc
          simp only [Except.ok.injEq, Prod.mk.injEq, List.dropWhile_cons, hc, if_true] at h
          have := List.dropWhile_suffix isKeyChar (l := s)
          rw [h.2] at this
          have hl := this.length_le
          exact ⟨this.trans (List.suffix_cons _ _), by simp only [List.length_cons]; omega⟩
        · simp at h

theorem readWord_append (s : List Char) : (readWord s).1 ++ (readWord s).2 = s := by
  fun_induction readWord s with
  | case1 => rfl
  | case2 s ih => simp [ih]
  | case3 c s _ _ => simp
  | case4 c s _ _ ih => simp [ih]

theorem readWord_shorter {s : List Char} (h : (readWord s).1 ≠ []) :
    (readWord s).2.length < s.length := by
  have := congrArg List.length (readWord_append s)
  have := List.length_pos_iff.mpr h
  simp only [List.length_append] at *
  omega

/-- What may follow a member or an item: a separator, which is taken, the closing bracket, or the
end of the text. -/
def readSeparator (fault : ListFault) (stop : List Char → Bool) (s : List Char) :
    Except ReadFault { r : List Char // r.length ≤ s.length } :=
  match h : trimLeft s with
  | ',' :: t => .ok ⟨t, by have := h ▸ length_trimLeft_le s; simp only [List.length_cons] at this; omega⟩
  | t => if stop t then .ok ⟨t, h ▸ length_trimLeft_le s⟩ else .error ⟨fault, t⟩

mutual

/-- A value, and the text behind it. -/
def readValue (s : List Char) :
    Except ReadFault (Value × { r : List Char // r.length < s.length }) :=
  match h : trimLeft s with
  | [] => .error ⟨.noValue, []⟩
  | c :: t =>
    have hs : t.length < s.length := by
      have := h ▸ length_trimLeft_le s
      simp only [List.length_cons] at this
      omega
    if c = '\x7b' then
      match readMembers (some '\x7d') [] t with
      | .ok (m, r) => .ok (.object m, ⟨r.1, Nat.lt_of_le_of_lt r.2 hs⟩)
      | .error e => .error e
    else if c = '[' then
      match readItems t with
      | .ok (vs, r) => .ok (.array vs, ⟨r.1, Nat.lt_of_le_of_lt r.2 hs⟩)
      | .error e => .error e
    else if isQuote c then
      match hr : readString c t with
      | .ok (v, r) =>
        .ok (.str (String.ofList v), ⟨r, Nat.lt_trans (readString_suffix hr).2 hs⟩)
      | .error e => .error e
    else
      if hw : (readWord (c :: t)).1 = [] then .error ⟨.noValue, c :: t⟩
      else
        match convertWord (readWord (c :: t)).1 with
        | .ok v =>
          .ok (v, ⟨(readWord (c :: t)).2, by
            have h₁ := readWord_shorter hw
            simp only [List.length_cons] at h₁
            omega⟩)
        | .error e => .error ⟨.overlong e, (readWord (c :: t)).2⟩
termination_by 2 * s.length
decreasing_by all_goals omega

/-- The members up to the closing bracket, or up to the end of the text if there is none, assigned
in turn to `m`, and the text behind them. -/
def readMembers (closer : Option Char) (m : Bag) (s : List Char) :
    Except ReadFault (Bag × { r : List Char // r.length ≤ s.length }) :=
  match h : trimLeft s with
  | [] =>
    match closer with
    | none => .ok (m, ⟨[], Nat.zero_le _⟩)
    | some c => .error ⟨.noCloser c, []⟩
  | c :: t =>
    have hs : t.length < s.length := by
      have := h ▸ length_trimLeft_le s
      simp only [List.length_cons] at this
      omega
    if closer = some c then .ok (m, ⟨t, Nat.le_of_lt hs⟩)
    else
      match hk : readKey (c :: t) with
      | .error e => .error e
      | .ok (k, u) =>
        have hu : u.length < s.length := by
          have := (readKey_suffix hk).2
          simp only [List.length_cons] at this
          omega
        let stop (r : List Char) : Bool := r.isEmpty || r.head? == closer
        let assigned : Except ReadFault (Value × { r : List Char // r.length < s.length }) :=
          match he : trimLeft u with
          | e :: v =>
            have hv : v.length < s.length := by
              have := he ▸ length_trimLeft_le u
              simp only [List.length_cons] at this
              omega
            if e = '=' ∨ e = ':' then
              match readValue v with
              | .ok (x, r) => .ok (x, ⟨r.1, Nat.lt_trans r.2 hv⟩)
              | .error e => .error e
            else .ok (.bool true, ⟨e :: v, he ▸ Nat.lt_of_le_of_lt (length_trimLeft_le u) hu⟩)
          | [] => .ok (.bool true, ⟨[], Nat.lt_of_le_of_lt (Nat.zero_le _) hu⟩)
        match assigned with
        | .error e => .error e
        | .ok (x, r) =>
          match readSeparator .noComma stop r.1 with
          | .error e => .error e
          | .ok w =>
            have hw : w.1.length < s.length := Nat.lt_of_le_of_lt w.2 r.2
            match readMembers closer (m.put (String.ofList k) x) w.1 with
            | .ok (m, r) => .ok (m, ⟨r.1, Nat.le_of_lt (Nat.lt_of_le_of_lt r.2 hw)⟩)
            | .error e => .error e
termination_by 2 * s.length + 1
decreasing_by all_goals omega

/-- The items up to the closing bracket of an array, and the text behind it. -/
def readItems (s : List Char) :
    Except ReadFault (List Value × { r : List Char // r.length ≤ s.length }) :=
  match h : trimLeft s with
  | [] => .error ⟨.noBracket, []⟩
  | c :: t =>
    have hs : (c :: t).length ≤ s.length := h ▸ length_trimLeft_le s
    if c = ']' then
      .ok ([], ⟨t, by simp only [List.length_cons] at hs; omega⟩)
    else
      match readValue (c :: t) with
      | .error e => .error e
      | .ok (x, r) =>
        match readSeparator .noCommaOrBracket (fun u => u.head? == some ']') r.1 with
        | .error e => .error e
        | .ok w =>
          have hw : w.1.length < s.length :=
            Nat.lt_of_lt_of_le (Nat.lt_of_le_of_lt w.2 r.2) hs
          match readItems w.1 with
          | .ok (xs, r) => .ok (x :: xs, ⟨r.1, Nat.le_of_lt (Nat.lt_of_le_of_lt r.2 hw)⟩)
          | .error e => .error e
termination_by 2 * s.length + 1
decreasing_by all_goals omega

end

/-! ### Whole lists -/

/-- The members of a whole text. -/
def readObject (s : List Char) : Except ReadFault Bag := (readMembers none [] s).map (·.1)

end HeaderReflection.Attribute
