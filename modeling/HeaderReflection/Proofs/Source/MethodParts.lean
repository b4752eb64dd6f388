import HeaderReflection.Proofs.Lexer.Groups
import HeaderReflection.Proofs.Lexer.Words
import HeaderReflection.Proofs.Source.CommentedHeads
import HeaderReflection.Proofs.Source.FieldFlags
import HeaderReflection.Proofs.Source.LineSteps

/-! # Methods as they are written

A method declaration that is put together from its parts, with blanks between them, is accepted and declares
the method that the parts say (`Reader.runLines_method`).

* The parts are words in front of the return type, the return type, the name, the parameters, trailers behind
  them, and an end (`MethodText.Written`).  Words and trailers may come in any order and repeat.
* Words are read one after the other, and what follows the last of them is not taken for one
  (`MethodText.iterate_leadingStep`).  Of a type it is required that it is read whole in front of a name.
* A trailer is read by a step of its own for each of its forms (`MethodText.trailingStep_trailer`).  What goes
  on behind a trailer must not be taken for a part of it, which is why each has to end
  (`MethodText.EndsTrailer`).
* A zero that is assigned makes a method abstract, and other things that may be assigned are words.

Up to its trailers the declaration is a signature (`MethodText.Signature`), which is shared with methods whose
return type stands behind an arrow.  The flags that are raised are those of all words and trailers, whatever
their order (`MethodText.Written.Raises`). -/

namespace HeaderReflection

open Checked Text

/-- Blanks between two parts. -/
def IsGap (u : List Char) : Prop := u ≠ [] ∧ isBlankText u = true

instance (u : List Char) : Decidable (IsGap u) := inferInstanceAs (Decidable (_ ∧ _))

namespace MethodText

/-- What may stand behind the parameters of a method. -/
inductive Trailer where
  | const
  | final
  | override
  | noexcept
  | noexceptIf (condition : List Char)
  | reference
  | rvalueReference
  deriving DecidableEq, Repr

namespace Trailer

/-- The trailer as it is written. -/
def text : Trailer → List Char
  | .const => "const".toList
  | .final => "final".toList
  | .override => "override".toList
  | .noexcept => "noexcept".toList
  | .noexceptIf condition => "noexcept".toList ++ '(' :: (condition ++ [')'])
  | .reference => "&".toList
  | .rvalueReference => "&&".toList

theorem text_noexceptIf (condition : List Char) :
    (Trailer.noexceptIf condition).text = "noexcept".toList ++ '(' :: (condition ++ [')']) := rfl

/-- The flags that the trailer raises. -/
def flags : Trailer → List MethodFlag
  | .const => [.const]
  | .final => [.final]
  | .noexcept => [.noexcept]
  | .noexceptIf _ => [.noexcept]
  | .override => []
  | .reference => []
  | .rvalueReference => []

/-- The brackets of a condition are balanced. -/
def IsValid : Trailer → Prop
  | .noexceptIf condition => Bracket.round.IsBalanced IsPlainLiteral condition
  | _ => True

end Trailer

/-- The parts of a method declaration.  Words have the blanks behind them, and trailers those in front. -/
structure Written where
  leading : List (List Char × List Char) := []
  type : List Char
  gap : List Char
  name : List Char
  nameGap : List Char := []
  parameters : List Char
  trailing : List (List Char × Trailer) := []
  /-- The blanks on both sides of the `=` in front of a zero. -/
  zero? : Option (List Char × List Char) := none
  endGap : List Char := []

namespace Written

/-- The words in front of the return type. -/
def leadingText (ws : List (List Char × List Char)) : List Char := ws.flatMap fun p => p.1 ++ p.2

/-- The trailers with the blanks in front of them. -/
def trailingText (xs : List (List Char × Trailer)) : List Char := xs.flatMap fun p => p.1 ++ p.2.text

/-- The zero and what ends the declaration. -/
def endText (w : Written) : List Char :=
  (match w.zero? with
    | some (front, behind) => front ++ '=' :: (behind ++ ['0'])
    | none => []) ++ (w.endGap ++ [';'])

/-- The text of a declaration. -/
def text (w : Written) : List Char :=
  leadingText w.leading ++ (w.type ++ (w.gap ++ (w.name ++ (w.nameGap ++ '(' :: (w.parameters ++ ')' ::
    (trailingText w.trailing ++ w.endText))))))

/-- The return type ends where a name begins, and neither it nor the name could be taken for something else. -/
structure IsValid (w : Written) : Prop where
  leading : ∀ p ∈ w.leading, p.1 ∈ leadingWords.map (·.1) ∧ IsGap p.2
  type : Lexer.typeText.answer (w.type ++ [' ', 'x']) = (.ok w.type, ['x'])
  type_not_word : ∀ v ∈ leadingWords.map (·.1), Lexer.dropWord? v w.type = none
  type_not_native : ¬"[[".toList <+: w.type
  type_not_destructor : ¬['~'] <+: w.type
  type_not_operator : w.type ≠ "operator".toList
  gap : IsGap w.gap
  name : Lexer.IsWord w.name
  name_not_const : w.name ≠ "const".toList
  name_not_operator : w.name ≠ "operator".toList
  nameGap : isBlankText w.nameGap = true
  parameters : Bracket.round.IsBalanced IsPlainLiteral w.parameters
  trailing : ∀ p ∈ w.trailing, IsGap p.1 ∧ p.2.IsValid
  zero : ∀ p, w.zero? = some p → isBlankText p.1 = true ∧ isBlankText p.2 = true
  endGap : isBlankText w.endGap = true

/-- One of the words in front of the return type. -/
def HasWord (w : Written) (word : String) : Prop := word.toList ∈ w.leading.map (·.1)

/-- One of the trailers. -/
def HasTrailer (w : Written) (x : Trailer) : Prop := x ∈ w.trailing.map (·.2)

/-- A method has the type, the name and the parameters that are written, and it has a flag if and only if the word
for it is written. -/
structure Declares (w : Written) (m : Method) : Prop where
  returnType : m.returnType = String.ofList w.type
  name : m.name = String.ofList w.name
  rawParameters : m.rawParameters = String.ofList (trim w.parameters)
  parameters : m.parameters = Parameter.ofList w.parameters
  virtual : m.flags.has .virtual = true ↔ w.HasWord "virtual"
  static : m.flags.has .static = true ↔ w.HasWord "static"
  inlined : m.flags.has .inlined = true ↔ w.HasWord "inline" ∨ w.HasWord "constexpr"
  explicit : m.flags.has .explicit = true ↔ w.HasWord "explicit"
  const : m.flags.has .const = true ↔ w.HasTrailer .const
  final : m.flags.has .final = true ↔ w.HasTrailer .final
  noexcept : m.flags.has .noexcept = true ↔
    w.HasTrailer .noexcept ∨ ∃ condition, w.HasTrailer (.noexceptIf condition)
  abstract : m.flags.has .abstract = true ↔ w.zero?.isSome = true

end Written

end MethodText

/-! ### Reading in front of blanks -/

theorem IsGap.exists_cons {u : List Char} (hu : IsGap u) :
    ∃ b v, u = b :: v ∧ isBlank b = true ∧ isBlankText v = true := by
  obtain ⟨b, v, rfl⟩ := List.exists_cons_of_ne_nil hu.1
  obtain ⟨hb, hv⟩ := Bool.and_eq_true_iff.mp hu.2
  exact ⟨b, v, rfl, hb, hv⟩

theorem IsGap.endsWord {u : List Char} (hu : IsGap u) (t : List Char) : Lexer.EndsWord (u ++ t) := by
  obtain ⟨b, v, rfl, hb, -⟩ := hu.exists_cons
  exact .of_isBlank hb _

namespace Lexer

variable {α : Type} {s t w : List Char} {a : α} {table : List (List Char × α)}

theorem answer_looking (literal s : List Char) :
    (looking literal).answer s = (.ok (literal.isPrefixOf (trimLeft s)), trimLeft s) := rfl

theorem looking_eq_false {literal : List Char} (h : ¬literal <+: trimLeft s) :
    (looking literal).answer s = (.ok false, trimLeft s) := by
  rw [answer_looking, Bool.eq_false_iff.mpr fun hprefix => h (List.isPrefixOf_iff_prefix.mp hprefix)]

theorem swallow_eq_false {literal : List Char} (h : ¬literal <+: trimLeft s) :
    (swallow literal).answer s = (.ok false, trimLeft s) := by
  have hnone : dropLiteral? literal (trimLeft s) = none :=
    if_neg fun hprefix => h (List.isPrefixOf_iff_prefix.mp hprefix)
  refine (answer_swallowBy _ s).trans ?_
  rw [hnone]

theorem swallow_eq_true {literal : List Char} (h : trimLeft s = literal ++ t) :
    (swallow literal).answer s = (.ok true, t) := by
  refine (answer_swallowBy _ s).trans ?_
  rw [dropLiteral?_eq_some.mpr h]

/-- A listed word is taken, and no other one, if none is listed twice. -/
theorem swallowOneOf_word (hwords : ∀ p ∈ table, IsWord p.1) (hnodup : (table.map (·.1)).Nodup)
    (hw : (w, a) ∈ table) (ht : EndsWord t) (hs : trimLeft s = w ++ t) :
    (swallowOneOf table).answer s = (.ok (some a), t) := by
  have hword := hwords _ hw
  have hfind : (table.findSome? fun p => (dropWord? p.1 (trimLeft s)).map fun t => (p.2, t)) = some (a, t) := by
    rw [hs]
    induction table with
    | nil => cases hw
    | cons p table ih =>
        obtain ⟨hp, hwords⟩ := List.forall_mem_cons.mp hwords
        rw [List.findSome?_cons, dropWord?_of_word hp hword ht]
        rw [List.map_cons, List.nodup_cons] at hnodup
        rcases List.mem_cons.mp hw with rfl | hw
        · rw [if_pos rfl]
          rfl
        · have hother : w ≠ p.1 := by
            rintro rfl
            exact hnodup.1 (List.mem_map.mpr ⟨_, hw, rfl⟩)
          rw [if_neg hother]
          exact ih hwords hnodup.2 hw
  rw [answer_swallowOneOf, hfind]

theorem swallowOneOf_none (h : ∀ p ∈ table, dropWord? p.1 (trimLeft s) = none) :
    (swallowOneOf table).answer s = (.ok none, trimLeft s) := by
  have hfind : (table.findSome? fun p => (dropWord? p.1 (trimLeft s)).map fun t => (p.2, t)) = none := by
    refine List.findSome?_eq_none_iff.mpr fun p hp => ?_
    rw [h p hp]
    rfl
  rw [answer_swallowOneOf, hfind]

theorem iterate_done {σ : Type} {step : σ → Lexer (ForInStep σ)} {x y : σ}
    (h : (step x).answer s = (.ok (.done y), t)) : (iterate step x).answer s = (.ok y, t) := by
  show iterateOn step x s = (.ok y, t)
  rw [iterateOn, h]

/-- A step that takes something is followed by the next one. -/
theorem iterate_yield {σ : Type} {step : σ → Lexer (ForInStep σ)} {x y : σ}
    (h : (step x).answer s = (.ok (.yield y), t)) (hlt : t.length < s.length) :
    (iterate step x).answer s = (iterate step y).answer t := by
  show iterateOn step x s = iterateOn step y t
  rw [iterateOn, h]
  exact if_pos hlt

theorem answer_upTo {stops : List Char} {c : Char} (hs : ∀ d ∈ s, d ∉ stops) (hc : c ∈ stops) :
    (upTo stops).answer (s ++ c :: t) = (.ok s, c :: t) := by
  have hgoes : ∀ d ∈ s, (!stops.contains d) = true := fun d hd => by simpa using hs d hd
  have hstops : ¬(!stops.contains c) = true := by simpa using hc
  have htake : (s ++ c :: t).takeWhile (!stops.contains ·) = s := by
    rw [List.takeWhile_append_of_pos hgoes, List.takeWhile_cons_of_neg (p := (!stops.contains ·)) hstops,
      List.append_nil]
  have hdrop : (s ++ c :: t).dropWhile (!stops.contains ·) = c :: t := by
    rw [List.dropWhile_append_of_pos hgoes, List.dropWhile_cons_of_neg (p := (!stops.contains ·)) hstops]
  show (Except.ok ((s ++ c :: t).takeWhile (!stops.contains ·)), (s ++ c :: t).dropWhile (!stops.contains ·)) = _
  rw [htake, hdrop]

theorem answer_nativeAttributes (h : ¬"[[".toList <+: trimLeft s) :
    nativeAttributes.answer s = (.ok [], trimLeft s) := by
  unfold nativeAttributes
  refine (answer_bind_of_ok (t := trimLeft s) (a := {}) (iterate_done ?_)).trans rfl
  exact answer_bind_of_ok (swallow_eq_false h)

theorem not_prefix_append_blank {p : List Char} {b : Char} (hp : ∀ c ∈ p, isBlank c = false) (hb : isBlank b = true)
    (hs : ¬p <+: s) : ¬p <+: s ++ b :: t := by
  rintro ⟨r, hr⟩
  have htaken := dropLiteral?_eq_some.mpr hr.symm
  rw [dropLiteral?_append_blank hp hb] at htaken
  obtain ⟨v, hv, -⟩ := Option.map_eq_some_iff.mp htaken
  exact hs ⟨v, (dropLiteral?_eq_some.mp hv).symm⟩

end Lexer

namespace MethodText

open Lexer

variable {s t : List Char}

/-! ### Words in front of the return type -/

/-- One step of `readLeading`. -/
def leadingStep (m : MethodText) : Lexer (ForInStep MethodText) := do
  match ← swallowOneOf leadingWords with
  | some f => return .yield { m with flags := m.flags.insert f }
  | none =>
    if ← looking "[[".toList then
      return .yield { m with native := m.native.merge (← nativeAttributes) }
    else return .done m

theorem isWord_of_mem_leadingWords : ∀ p ∈ leadingWords, IsWord p.1 := by
  have hwords : ∀ p ∈ leadingWords, p.1 ≠ [] ∧ ∀ c ∈ p.1, isIdentifierChar c = true := by decide
  exact hwords

/-- A text in front of which no word and no native attribute is read. -/
structure EndsLeading (s : List Char) : Prop where
  trimmed : trimLeft s = s
  not_word : ∀ v ∈ leadingWords.map (·.1), dropWord? v s = none
  not_native : ¬"[[".toList <+: s

theorem EndsLeading.trimLeft_append {body : List Char} (hbody : EndsLeading body) {ws : List (List Char × List Char)}
    (hws : ∀ p ∈ ws, p.1 ∈ leadingWords.map (·.1) ∧ IsGap p.2) :
    trimLeft (Written.leadingText ws ++ body) = Written.leadingText ws ++ body := by
  cases ws with
  | nil => exact hbody.trimmed
  | cons p ws =>
      obtain ⟨q, hq, hword⟩ := List.mem_map.mp (hws p List.mem_cons_self).1
      have htext : Written.leadingText (p :: ws) ++ body = p.1 ++ (p.2 ++ (Written.leadingText ws ++ body)) := by
        simp [Written.leadingText]
      rw [htext, (hword ▸ isWord_of_mem_leadingWords q hq : IsWord p.1).trimLeft_append]

theorem eq_of_mem_leadingWords {word : List Char} {f g : MethodFlag} (hf : (word, f) ∈ leadingWords)
    (hg : (word, g) ∈ leadingWords) : g = f := by
  have hunique : ∀ p ∈ leadingWords, ∀ q ∈ leadingWords, p.1 = q.1 → p.2 = q.2 := by decide
  exact hunique _ hg _ hf rfl

/-- The words are taken up to the return type, and they raise the flags. -/
theorem iterate_leadingStep {ws : List (List Char × List Char)} {body : List Char}
    (hws : ∀ p ∈ ws, p.1 ∈ leadingWords.map (·.1) ∧ IsGap p.2) (hbody : EndsLeading body) (m : MethodText)
    (hs : trimLeft s = Written.leadingText ws ++ body) :
    ∃ flags, (iterate leadingStep m).answer s = (.ok { m with flags }, body) ∧
      ∀ f, flags.has f = true ↔ m.flags.has f = true ∨ ∃ word, (word, f) ∈ leadingWords ∧ word ∈ ws.map (·.1) := by
  induction ws generalizing m s with
  | nil =>
      have htext : trimLeft s = body := hs
      have hnone : (swallowOneOf leadingWords).answer s = (.ok none, body) := by
        refine htext ▸ swallowOneOf_none fun p hp => ?_
        rw [htext]
        exact hbody.not_word p.1 (List.mem_map_of_mem hp)
      have hlooking : (looking "[[".toList).answer body = (.ok false, body) := by
        have hbegins : ¬"[[".toList <+: trimLeft body := by
          rw [hbody.trimmed]
          exact hbody.not_native
        exact (looking_eq_false hbegins).trans (by rw [hbody.trimmed])
      have hstep : (leadingStep m).answer s = (.ok (.done m), body) :=
        (answer_bind_of_ok hnone).trans (answer_bind_of_ok hlooking)
      refine ⟨m.flags, iterate_done hstep, fun f => ?_⟩
      simp
  | cons p ws ih =>
      obtain ⟨⟨hp, hgap⟩, hws⟩ := List.forall_mem_cons.mp hws
      obtain ⟨⟨word, f⟩, hmem, hword⟩ := List.mem_map.mp hp
      obtain rfl : word = p.1 := hword
      have htext : trimLeft s = p.1 ++ (p.2 ++ (Written.leadingText ws ++ body)) := by
        rw [hs]
        simp [Written.leadingText]
      have htaken := swallowOneOf_word isWord_of_mem_leadingWords (by decide) hmem (hgap.endsWord _) htext
      have hstep : (leadingStep m).answer s =
          (.ok (.yield { m with flags := m.flags.insert f }), p.2 ++ (Written.leadingText ws ++ body)) :=
        answer_bind_of_ok htaken
      have hrest : trimLeft (p.2 ++ (Written.leadingText ws ++ body)) = Written.leadingText ws ++ body := by
        rw [trimLeft_blank_append hgap.2, hbody.trimLeft_append hws]
      have hshort := length_lt_of_trimLeft htext (isWord_of_mem_leadingWords _ hmem).1
      obtain ⟨flags, hread, hflags⟩ := ih hws { m with flags := m.flags.insert f } hrest
      refine ⟨flags, (iterate_yield hstep hshort).trans hread, fun g => ?_⟩
      rw [hflags, FlagSet.has_insert, Bool.or_eq_true, decide_eq_true_eq]
      constructor
      · rintro ((rfl | hhas) | ⟨word, hlisted, hwritten⟩)
        · exact .inr ⟨p.1, hmem, List.mem_cons_self⟩
        · exact .inl hhas
        · exact .inr ⟨word, hlisted, List.mem_cons_of_mem _ hwritten⟩
      · rintro (hhas | ⟨word, hlisted, hwritten⟩)
        · exact .inl (.inr hhas)
        · rcases List.mem_cons.mp hwritten with rfl | hwritten
          · exact .inl (.inl (eq_of_mem_leadingWords hmem hlisted))
          · exact .inr ⟨word, hlisted, hwritten⟩

/-! ### Trailers -/

/-- The flags with more of them raised. -/
def raise (flags : FlagSet MethodFlag) (fs : List MethodFlag) : FlagSet MethodFlag :=
  fs.foldl (fun s f => s.insert f) flags

theorem has_raise (flags : FlagSet MethodFlag) (fs : List MethodFlag) (g : MethodFlag) :
    (raise flags fs).has g = true ↔ g ∈ fs ∨ flags.has g = true := by
  unfold raise
  induction fs generalizing flags with
  | nil => simp
  | cons f fs ih =>
      rw [List.foldl_cons, ih]
      simp [or_assoc, or_left_comm]

/-- One step of `readTrailing`. -/
def trailingStep (flags : FlagSet MethodFlag) : Lexer (ForInStep (FlagSet MethodFlag)) := do
  match ← swallowOneOf trailingWords with
  | some fs =>
    if fs.contains .noexcept then
      if ← looking ['('] then
        let _ ← balanced .round
    return .yield (fs.foldl (fun s f => s.insert f) flags)
  | none =>
    if ← swallow "&&".toList then return .yield flags
    if ← swallow ['&'] then return .yield flags
    return .done flags

theorem readTrailing_eq (flags : FlagSet MethodFlag) : readTrailing flags = iterate trailingStep flags := rfl

/-- A text that goes on with none of what a trailer could be continued with. -/
structure EndsTrailer (t : List Char) : Prop where
  endsWord : EndsWord t
  not_reference : ¬['&'] <+: t
  not_group : ¬['('] <+: trimLeft t

theorem isWord_of_mem_trailingWords : ∀ p ∈ trailingWords, IsWord p.1 := by
  have hwords : ∀ p ∈ trailingWords, p.1 ≠ [] ∧ ∀ c ∈ p.1, isIdentifierChar c = true := by decide
  exact hwords

theorem trailingStep_word {word : List Char} {fs : List MethodFlag} (hmem : (word, fs) ∈ trailingWords)
    (hfs : .noexcept ∉ fs) (ht : EndsTrailer t) (hs : trimLeft s = word ++ t) (flags : FlagSet MethodFlag) :
    (trailingStep flags).answer s = (.ok (.yield (raise flags fs)), t) := by
  have htaken := swallowOneOf_word isWord_of_mem_trailingWords (by decide) hmem ht.endsWord hs
  refine (answer_bind_of_ok htaken).trans ?_
  dsimp only
  rw [if_neg (by simpa using hfs)]
  rfl

theorem trailingStep_noexcept (ht : EndsTrailer t) (hs : trimLeft s = "noexcept".toList ++ t)
    (flags : FlagSet MethodFlag) :
    (trailingStep flags).answer s = (.ok (.yield (raise flags [.noexcept])), trimLeft t) := by
  have htaken := swallowOneOf_word isWord_of_mem_trailingWords (by decide) (a := [.noexcept]) (by decide) ht.endsWord hs
  refine (answer_bind_of_ok htaken).trans ?_
  dsimp only
  rw [if_pos (by decide)]
  exact (answer_bind_of_ok (looking_eq_false ht.not_group)).trans rfl

theorem trailingStep_noexceptIf {condition : List Char} (hcondition : Bracket.round.IsBalanced IsPlainLiteral condition)
    (hs : trimLeft s = "noexcept".toList ++ '(' :: (condition ++ ')' :: t)) (flags : FlagSet MethodFlag) :
    (trailingStep flags).answer s = (.ok (.yield (raise flags [.noexcept])), t) := by
  have hends : EndsWord ('(' :: (condition ++ ')' :: t)) := .cons rfl _
  have htaken := swallowOneOf_word isWord_of_mem_trailingWords (by decide) (a := [.noexcept]) (by decide) hends hs
  refine (answer_bind_of_ok htaken).trans ?_
  dsimp only
  rw [if_pos (by decide)]
  have hlooking : (looking ['(']).answer ('(' :: (condition ++ ')' :: t)) =
      (.ok true, '(' :: (condition ++ ')' :: t)) := rfl
  refine (answer_bind_of_ok hlooking).trans ?_
  exact (answer_bind_of_ok (answer_balanced_of_isBalanced hcondition t)).trans rfl

theorem trailingStep_not_word (hs : EndsWord (trimLeft s)) (flags : FlagSet MethodFlag) :
    (trailingStep flags).answer s =
      (do
        if ← swallow "&&".toList then return .yield flags
        if ← swallow ['&'] then return .yield flags
        return .done flags : Lexer (ForInStep (FlagSet MethodFlag))).answer (trimLeft s) := by
  refine answer_bind_of_ok (swallowOneOf_none fun p hp => ?_)
  have hword := isWord_of_mem_trailingWords p hp
  rw [dropWord?_eq hword, hs, if_neg (Ne.symm hword.1)]

theorem trailingStep_rvalueReference (hs : trimLeft s = "&&".toList ++ t) (flags : FlagSet MethodFlag) :
    (trailingStep flags).answer s = (.ok (.yield (raise flags [])), t) := by
  have hends : EndsWord (trimLeft s) := by
    rw [hs]
    exact .cons rfl _
  rw [trailingStep_not_word hends]
  exact (answer_bind_of_ok (swallow_eq_true (by rw [trimLeft_trimLeft, hs]))).trans rfl

theorem trailingStep_reference (ht : EndsTrailer t) (hs : trimLeft s = '&' :: t) (flags : FlagSet MethodFlag) :
    (trailingStep flags).answer s = (.ok (.yield (raise flags [])), t) := by
  have hends : EndsWord (trimLeft s) := by
    rw [hs]
    exact .cons rfl _
  have hone : ¬"&&".toList <+: trimLeft (trimLeft s) := by
    rw [trimLeft_trimLeft, hs]
    rintro ⟨r, hr⟩
    exact ht.not_reference ⟨r, (List.cons.inj hr).2⟩
  rw [trailingStep_not_word hends]
  refine (answer_bind_of_ok (swallow_eq_false hone)).trans ?_
  exact (answer_bind_of_ok (swallow_eq_true (by rw [trimLeft_trimLeft, trimLeft_trimLeft, hs]; rfl))).trans rfl

/-- A character that no trailer begins with. -/
structure StopsTrailers (c : Char) : Prop where
  visible : isBlank c = false
  not_word : isIdentifierChar c = false
  not_reference : c ≠ '&'
  not_group : c ≠ '('

instance (c : Char) : Decidable (StopsTrailers c) :=
  decidable_of_iff (isBlank c = false ∧ isIdentifierChar c = false ∧ c ≠ '&' ∧ c ≠ '(')
    ⟨fun h => ⟨h.1, h.2.1, h.2.2.1, h.2.2.2⟩, fun h => ⟨h.1, h.2, h.3, h.4⟩⟩

theorem trailingStep_end {c : Char} (hc : StopsTrailers c) (hs : trimLeft s = c :: t) (flags : FlagSet MethodFlag) :
    (trailingStep flags).answer s = (.ok (.done flags), c :: t) := by
  have hends : EndsWord (trimLeft s) := by
    rw [hs]
    exact .cons hc.not_word t
  have hnone : ∀ literal, ¬('&' :: literal) <+: trimLeft (trimLeft s) := by
    rintro literal ⟨r, hr⟩
    rw [trimLeft_trimLeft, hs] at hr
    exact hc.not_reference (List.cons.inj hr).1.symm
  have hagain : ¬['&'] <+: trimLeft (trimLeft (trimLeft s)) := by
    rw [trimLeft_trimLeft]
    exact hnone []
  rw [trailingStep_not_word hends]
  refine (answer_bind_of_ok (swallow_eq_false (hnone ['&']))).trans ?_
  refine (answer_bind_of_ok (swallow_eq_false hagain)).trans ?_
  rw [trimLeft_trimLeft, trimLeft_trimLeft, hs]
  rfl

/-- A trailer is taken whole, and it raises its flags. -/
theorem trailingStep_trailer {x : Trailer} (hx : x.IsValid) (ht : EndsTrailer t) (hs : trimLeft s = x.text ++ t)
    (flags : FlagSet MethodFlag) :
    ∃ r, trimLeft r = trimLeft t ∧ r.length ≤ t.length ∧
      (trailingStep flags).answer s = (.ok (.yield (raise flags x.flags)), r) := by
  have hword : (x.text, x.flags) ∈ trailingWords → .noexcept ∉ x.flags → ∃ r, trimLeft r = trimLeft t ∧
      r.length ≤ t.length ∧
      (trailingStep flags).answer s = (.ok (.yield (raise flags x.flags)), r) :=
    fun hmem hfs => ⟨t, rfl, Nat.le_refl _, trailingStep_word hmem hfs ht hs flags⟩
  cases x with
  | const => exact hword (by decide) (by decide)
  | final => exact hword (by decide) (by decide)
  | override => exact hword (by decide) (by decide)
  | noexcept => exact ⟨trimLeft t, trimLeft_trimLeft t, length_trimLeft_le t, trailingStep_noexcept ht hs flags⟩
  | noexceptIf condition =>
      have htext : (Trailer.noexceptIf condition).text ++ t = "noexcept".toList ++ '(' :: (condition ++ ')' :: t) := by
        rw [Trailer.text_noexceptIf, List.append_assoc, List.cons_append, List.append_assoc]
        rfl
      exact ⟨t, rfl, Nat.le_refl _, trailingStep_noexceptIf hx (hs.trans htext) flags⟩
  | reference => exact ⟨t, rfl, Nat.le_refl _, trailingStep_reference ht hs flags⟩
  | rvalueReference => exact ⟨t, rfl, Nat.le_refl _, trailingStep_rvalueReference hs flags⟩

theorem Trailer.exists_text_eq_cons (x : Trailer) :
    ∃ c u, x.text = c :: u ∧ isBlank c = false ∧ c ≠ '(' := by
  cases x
  all_goals exact ⟨_, _, rfl, by decide, by decide⟩

/-- What goes on behind blanks, or without them with a character that no trailer goes on with. -/
theorem EndsTrailer.of_blank {u : List Char} {c : Char} (hu : isBlankText u = true) (hc : isBlank c = false)
    (hgroup : c ≠ '(') (hends : u = [] → isIdentifierChar c = false ∧ c ≠ '&') : EndsTrailer (u ++ c :: t) := by
  have htrim : trimLeft (u ++ c :: t) = c :: t := by
    rw [trimLeft_blank_append hu]
    exact List.dropWhile_cons_of_neg (by simp [hc])
  have hnot_group : ¬['('] <+: trimLeft (u ++ c :: t) := by
    rintro ⟨r, hr⟩
    rw [htrim] at hr
    exact hgroup (List.cons.inj hr).1.symm
  cases u with
  | nil =>
      refine ⟨.cons (hends rfl).1 t, ?_, hnot_group⟩
      rintro ⟨r, hr⟩
      exact (hends rfl).2 (List.cons.inj hr).1.symm
  | cons b u =>
      have hb := (Bool.and_eq_true_iff.mp hu).1
      refine ⟨.of_isBlank hb _, ?_, hnot_group⟩
      rintro ⟨r, hr⟩
      rw [← (List.cons.inj hr).1] at hb
      cases hb

/-- The text behind the trailers: it goes on with an `=` or a semicolon. -/
def IsEnd (t : List Char) : Prop := ∃ u c v, t = u ++ c :: v ∧ isBlankText u = true ∧ (c = '=' ∨ c = ';')

/-- Behind blanks, the text goes on with what no trailer begins with. -/
def EndsTrailers (t : List Char) : Prop := ∃ u c v, t = u ++ c :: v ∧ isBlankText u = true ∧ StopsTrailers c

theorem IsEnd.endsTrailers {z : List Char} (hz : IsEnd z) : EndsTrailers z := by
  obtain ⟨u, c, v, rfl, hu, hc⟩ := hz
  refine ⟨u, c, v, rfl, hu, ?_⟩
  rcases hc with rfl | rfl
  · decide
  · decide

theorem EndsTrailers.trimLeft_eq {z : List Char} (hz : EndsTrailers z) :
    ∃ c v, trimLeft z = c :: v ∧ StopsTrailers c := by
  obtain ⟨u, c, v, rfl, hu, hc⟩ := hz
  refine ⟨c, v, ?_, hc⟩
  rw [trimLeft_blank_append hu]
  exact List.dropWhile_cons_of_neg (by simp [hc.visible])

theorem EndsTrailers.endsTrailer {z : List Char} (hz : EndsTrailers z) : EndsTrailer z := by
  obtain ⟨u, c, v, rfl, hu, hc⟩ := hz
  exact .of_blank hu hc.visible hc.not_group fun _ => ⟨hc.not_word, hc.not_reference⟩

theorem EndsTrailers.endsTrailer_append {z : List Char} (hz : EndsTrailers z) {xs : List (List Char × Trailer)}
    (hxs : ∀ p ∈ xs, IsGap p.1 ∧ p.2.IsValid) : EndsTrailer (Written.trailingText xs ++ z) := by
  cases xs with
  | nil => exact hz.endsTrailer
  | cons p xs =>
      obtain ⟨c, u, htext, hc, hgroup⟩ := p.2.exists_text_eq_cons
      have hgap := (hxs p List.mem_cons_self).1
      have hsplit : Written.trailingText (p :: xs) ++ z = p.1 ++ c :: (u ++ (Written.trailingText xs ++ z)) := by
        simp [Written.trailingText, htext]
      rw [hsplit]
      exact .of_blank hgap.2 hc hgroup fun hnil => absurd hnil hgap.1

/-- All trailers are taken, and they raise the flags. -/
theorem answer_readTrailing {xs : List (List Char × Trailer)} {z : List Char}
    (hxs : ∀ p ∈ xs, IsGap p.1 ∧ p.2.IsValid) (hz : EndsTrailers z) (flags : FlagSet MethodFlag)
    (hs : trimLeft s = trimLeft (Written.trailingText xs ++ z)) :
    ∃ out, (readTrailing flags).answer s = (.ok out, trimLeft z) ∧
      ∀ f, out.has f = true ↔ flags.has f = true ∨ ∃ x ∈ xs.map (·.2), f ∈ x.flags := by
  induction xs generalizing flags s with
  | nil =>
      obtain ⟨c, v, hend, hc⟩ := hz.trimLeft_eq
      have htext : trimLeft s = c :: v := hs.trans hend
      refine ⟨flags, ?_, fun f => by simp⟩
      rw [readTrailing_eq, hend]
      exact iterate_done (trailingStep_end hc htext flags)
  | cons p xs ih =>
      obtain ⟨⟨hgap, hp⟩, hrest⟩ := List.forall_mem_cons.mp hxs
      have htext : trimLeft s = p.2.text ++ (Written.trailingText xs ++ z) := by
        obtain ⟨c, u, htext, hc, -⟩ := p.2.exists_text_eq_cons
        have hsplit : Written.trailingText (p :: xs) ++ z = p.1 ++ (p.2.text ++ (Written.trailingText xs ++ z)) := by
          simp [Written.trailingText]
        rw [hs, hsplit, trimLeft_blank_append hgap.2, htext]
        exact List.dropWhile_cons_of_neg (by simp [hc])
      obtain ⟨r, hr, hle, hstep⟩ := trailingStep_trailer hp (hz.endsTrailer_append hrest) htext flags
      have hshort : r.length < s.length := by
        obtain ⟨c, u, hbegin, -⟩ := p.2.exists_text_eq_cons
        have hlt := length_lt_of_trimLeft htext (by rw [hbegin]; exact List.cons_ne_nil c u)
        omega
      obtain ⟨out, hout, hflags⟩ := ih hrest (raise flags p.2.flags) hr
      refine ⟨out, ?_, fun f => ?_⟩
      · rw [readTrailing_eq, iterate_yield hstep hshort]
        exact hout
      · rw [hflags, has_raise]
        simp [or_assoc, or_left_comm]

theorem answer_readAssigned_zero {u z : List Char} (hu : isBlankText u = true) (hz : EndsTrailers z)
    (flags : FlagSet MethodFlag) :
    ∃ out, (readAssigned flags).answer ('=' :: (u ++ '0' :: z)) = (.ok out, trimLeft z) ∧
      ∀ f, out.has f = true ↔ flags.has f = true ∨ f = .abstract := by
  have hassigned : (swallow ['=']).answer ('=' :: (u ++ '0' :: z)) = (.ok true, u ++ '0' :: z) := swallow_eq_true rfl
  have hword : (swallowWord ['0']).answer (u ++ '0' :: z) = (.ok true, z) := by
    have hzero : IsWord ['0'] := ⟨by decide, by decide⟩
    have htaken := dropWord?_of_word hzero hzero hz.endsTrailer.endsWord
    rw [if_pos rfl] at htaken
    refine (answer_swallowBy _ _).trans ?_
    have hvisible : trimLeft ('0' :: z) = ['0'] ++ z := rfl
    rw [trimLeft_blank_append hu, hvisible, htaken]
  have hnone : ∀ q ∈ ([] : List (List Char × Trailer)), IsGap q.1 ∧ q.2.IsValid := List.forall_mem_nil _
  obtain ⟨out, hread, hflags⟩ := answer_readTrailing hnone hz (flags.insertIf true .abstract) rfl
  refine ⟨out, (answer_bind_of_ok hassigned).trans ((answer_bind_of_ok hword).trans hread), fun f => ?_⟩
  rw [hflags]
  simp [or_comm]

/-! ### Signatures -/

/-- The parts of a method declaration up to its trailers. -/
structure Signature where
  leading : List (List Char × List Char)
  type : List Char
  gap : List Char
  name : List Char
  nameGap : List Char
  parameters : List Char
  trailing : List (List Char × Trailer)

namespace Signature

variable {x : Signature} {z : List Char}

/-- The text behind the name, where `z` stands behind the trailers. -/
def parametersText (x : Signature) (z : List Char) : List Char :=
  x.nameGap ++ '(' :: (x.parameters ++ ')' :: (Written.trailingText x.trailing ++ z))

/-- The text behind the leading words. -/
def body (x : Signature) (z : List Char) : List Char := x.type ++ (x.gap ++ (x.name ++ x.parametersText z))

def text (x : Signature) (z : List Char) : List Char := Written.leadingText x.leading ++ x.body z

structure IsValid (x : Signature) : Prop where
  leading : ∀ p ∈ x.leading, p.1 ∈ leadingWords.map (·.1) ∧ IsGap p.2
  type : Lexer.typeText.answer (x.type ++ [' ', 'x']) = (.ok x.type, ['x'])
  type_not_word : ∀ v ∈ leadingWords.map (·.1), Lexer.dropWord? v x.type = none
  type_not_native : ¬"[[".toList <+: x.type
  type_not_destructor : ¬['~'] <+: x.type
  type_not_operator : x.type ≠ "operator".toList
  gap : IsGap x.gap
  name : Lexer.IsWord x.name
  name_not_const : x.name ≠ "const".toList
  name_not_operator : x.name ≠ "operator".toList
  nameGap : isBlankText x.nameGap = true
  parameters : Lexer.IsInside .round x.parameters
  trailing : ∀ p ∈ x.trailing, IsGap p.1 ∧ p.2.IsValid

theorem IsValid.trimLeft_parametersText (hx : x.IsValid) :
    trimLeft (x.parametersText z) = '(' :: (x.parameters ++ ')' :: (Written.trailingText x.trailing ++ z)) :=
  trimLeft_blank_append hx.nameGap _

theorem IsValid.endsWord_parametersText (hx : x.IsValid) : EndsWord (x.parametersText z) :=
  .blank_append hx.nameGap (.cons rfl _)

theorem IsValid.endsLeading_body (hx : x.IsValid) : EndsLeading (x.body z) := by
  obtain ⟨b, u, hgap, hb, -⟩ := hx.gap.exists_cons
  have hbody : x.body z = x.type ++ b :: (u ++ (x.name ++ x.parametersText z)) := by
    unfold body
    rw [hgap]
    rfl
  rw [hbody]
  refine ⟨(trimmed_of_answer hx.type).2 _, fun v hv => ?_, ?_⟩
  · have hvisible : ∀ v ∈ leadingWords.map (·.1), ∀ c ∈ v, isBlank c = false := by decide
    rw [dropWord?_append_blank (hvisible v hv) hb, hx.type_not_word v hv]
    rfl
  · exact not_prefix_append_blank (by decide) hb hx.type_not_native

theorem IsValid.readLeading (hx : x.IsValid) :
    ∃ flags, MethodText.readLeading.answer (x.text z) = (.ok { flags }, x.body z) ∧
      ∀ f, flags.has f = true ↔ ∃ word, (word, f) ∈ leadingWords ∧ word ∈ x.leading.map (·.1) := by
  have hbody : EndsLeading (x.body z) := hx.endsLeading_body
  have htext : trimLeft (x.text z) = x.text z := hbody.trimLeft_append hx.leading
  have hnative : ¬"[[".toList <+: trimLeft (x.text z) := by
    rw [htext]
    unfold text
    cases hws : x.leading with
    | nil => exact hbody.not_native
    | cons p ws =>
        obtain ⟨q, hq, hword⟩ := List.mem_map.mp (hx.leading p (hws ▸ List.mem_cons_self)).1
        rw [Written.leadingText, List.flatMap_cons, List.append_assoc, List.append_assoc]
        exact (hword ▸ isWord_of_mem_leadingWords q hq : IsWord p.1).not_cons_isPrefix_append rfl _ _
  obtain ⟨flags, hread, hflags⟩ := iterate_leadingStep hx.leading hbody {} htext
  refine ⟨flags, ?_, fun f => ?_⟩
  · refine (answer_bind_of_ok (answer_nativeAttributes hnative)).trans ?_
    rw [htext]
    exact hread
  · rw [hflags]
    simp

/-- What is read of a signature, with the flags that are raised. -/
def meaning (x : Signature) (flags : FlagSet MethodFlag) : MethodText where
  flags := flags
  name := String.ofList x.name
  rawParameters := String.ofList (trim x.parameters)
  parameters := Parameter.ofList (trim x.parameters)

/-- The parts of a signature are read back, and its words raise the flags. -/
theorem IsValid.read (hx : x.IsValid) (hz : EndsTrailers z) :
    ∃ flags, readSignature.answer (x.text z) = (.ok (x.meaning flags, x.type), trimLeft z) ∧
      ∀ f, flags.has f = true ↔
        (∃ word, (word, f) ∈ leadingWords ∧ word ∈ x.leading.map (·.1)) ∨ ∃ t ∈ x.trailing.map (·.2), f ∈ t.flags := by
  have hbody : EndsLeading (x.body z) := hx.endsLeading_body
  obtain ⟨b, u, hgap, hb, hu⟩ := hx.gap.exists_cons
  obtain ⟨leading, hleading, hleadingFlags⟩ := hx.readLeading (z := z)
  obtain ⟨flags, htrailing, hflags⟩ := answer_readTrailing hx.trailing hz leading rfl
  have hdestructor : (looking ['~']).answer (x.body z) = (.ok false, x.body z) := by
    have hbegins : ¬['~'] <+: trimLeft (x.body z) := by
      rw [hbody.trimmed]
      unfold body
      rw [hgap]
      exact not_prefix_append_blank (by decide) hb hx.type_not_destructor
    exact (looking_eq_false hbegins).trans (by rw [hbody.trimmed])
  have htype : typeText.answer (x.body z) = (.ok x.type, x.name ++ x.parametersText z) := by
    have hread := answer_typeText_of_name hx.type hb hu hx.name hx.name_not_const (hx.endsWord_parametersText (z := z))
    unfold body
    rw [hgap]
    exact hread
  have hname : identifier.answer (x.name ++ x.parametersText z) = (.ok x.name, x.parametersText z) :=
    hx.name.answer_identifier hx.endsWord_parametersText
  have hopens := hx.trimLeft_parametersText (z := z)
  have hnative : nativeAttributes.answer (x.parametersText z) = (.ok [], trimLeft (x.parametersText z)) := by
    refine answer_nativeAttributes ?_
    rw [hopens]
    rintro ⟨v, hv⟩
    exact absurd (List.cons.inj hv).1 (by decide)
  have hlooking : (looking ['(']).answer (trimLeft (x.parametersText z)) =
      (.ok true, trimLeft (x.parametersText z)) := by
    rw [hopens]
    rfl
  have hparameters : (balanced .round).answer (trimLeft (x.parametersText z)) =
      (.ok x.parameters, Written.trailingText x.trailing ++ z) := by
    rw [hopens]
    exact hx.parameters.answer_balanced _
  refine ⟨flags, ?_, fun f => ?_⟩
  · unfold readSignature
    refine (answer_bind_of_ok hleading).trans ?_
    refine (answer_bind_of_ok hdestructor).trans ?_
    refine (answer_bind_of_ok htype).trans ?_
    rw [if_neg hx.type_not_operator]
    refine (answer_bind_of_ok hname).trans ?_
    rw [if_neg hx.name_not_operator]
    refine (answer_bind_of_ok hnative).trans ?_
    refine (answer_bind_of_ok hlooking).trans ?_
    refine (answer_bind_of_ok hparameters).trans ?_
    exact (answer_bind_of_ok htrailing).trans rfl
  · rw [hflags, hleadingFlags]

end Signature

/-! ### Whole declarations -/

namespace Written

variable {w : Written}

/-- The declaration up to its trailers. -/
def signature (w : Written) : Signature :=
  ⟨w.leading, w.type, w.gap, w.name, w.nameGap, w.parameters, w.trailing⟩

theorem IsValid.signature (hw : w.IsValid) : w.signature.IsValid where
  leading := hw.leading
  type := hw.type
  type_not_word := hw.type_not_word
  type_not_native := hw.type_not_native
  type_not_destructor := hw.type_not_destructor
  type_not_operator := hw.type_not_operator
  gap := hw.gap
  name := hw.name
  name_not_const := hw.name_not_const
  name_not_operator := hw.name_not_operator
  nameGap := hw.nameGap
  parameters := isInside_of_isBalanced hw.parameters
  trailing := hw.trailing

theorem IsValid.isEnd (hw : w.IsValid) : IsEnd w.endText := by
  unfold endText
  cases hzero : w.zero? with
  | none => exact ⟨w.endGap, ';', [], rfl, hw.endGap, .inr rfl⟩
  | some p =>
      refine ⟨p.1, '=', p.2 ++ '0' :: (w.endGap ++ [';']), ?_, (hw.zero p hzero).1, .inl rfl⟩
      simp

theorem IsValid.readArrow (hw : w.IsValid) (flags : FlagSet MethodFlag) (type : List Char) :
    (MethodText.readArrow flags type).answer (trimLeft w.endText) = (.ok (flags, type), trimLeft w.endText) := by
  have hnone : ¬"->".toList <+: trimLeft (trimLeft w.endText) := by
    obtain ⟨u, c, v, hend, hu, hc⟩ := hw.isEnd
    rintro ⟨r, hr⟩
    rw [trimLeft_trimLeft, hend, trimLeft_blank_append hu] at hr
    rcases hc with rfl | rfl
    · exact absurd (List.cons.inj hr).1 (by decide)
    · exact absurd (List.cons.inj hr).1 (by decide)
  refine (answer_bind_of_ok (swallow_eq_false hnone)).trans ?_
  rw [trimLeft_trimLeft]
  rfl

theorem IsValid.readAssigned (hw : w.IsValid) (flags : FlagSet MethodFlag) :
    ∃ out r, (MethodText.readAssigned flags).answer (trimLeft w.endText) = (.ok out, r) ∧
      ∀ f, out.has f = true ↔ flags.has f = true ∨ f = .abstract ∧ w.zero?.isSome = true := by
  unfold endText
  cases hzero : w.zero? with
  | none =>
      have hend : trimLeft ([] ++ (w.endGap ++ [';'])) = [';'] := trimLeft_blank_append hw.endGap _
      refine ⟨flags, [';'], ?_, fun f => by simp⟩
      rw [hend]
      rfl
  | some p =>
      obtain ⟨hfront, hbehind⟩ := hw.zero p hzero
      have hend : trimLeft ((p.1 ++ '=' :: (p.2 ++ ['0'])) ++ (w.endGap ++ [';'])) =
          '=' :: (p.2 ++ '0' :: (w.endGap ++ [';'])) := by
        rw [List.append_assoc, trimLeft_blank_append hfront, List.cons_append, List.append_assoc]
        rfl
      have hstop : EndsTrailers (w.endGap ++ [';']) := ⟨w.endGap, ';', [], rfl, hw.endGap, by decide⟩
      obtain ⟨out, hread, hflags⟩ := answer_readAssigned_zero hbehind hstop flags
      refine ⟨out, trimLeft (w.endGap ++ [';']), ?_, fun f => ?_⟩
      · rw [hend]
        exact hread
      · rw [hflags]
        simp

/-- A flag is raised by one of the words in front of the return type, by one of the trailers, or by a zero. -/
def Raises (w : Written) (f : MethodFlag) : Prop :=
  (∃ word, (word, f) ∈ leadingWords ∧ word ∈ w.leading.map (·.1)) ∨
    (∃ x ∈ w.trailing.map (·.2), f ∈ x.flags) ∨ f = .abstract ∧ w.zero?.isSome = true

/-- What is read of a declaration, with the flags that are raised. -/
def meaning (w : Written) (flags : FlagSet MethodFlag) : MethodText where
  flags := flags
  returnType := String.ofList w.type
  name := String.ofList w.name
  rawParameters := String.ofList (trim w.parameters)
  parameters := Parameter.ofList (trim w.parameters)

/-- The parts of a declaration are read back, and its words raise the flags. -/
theorem IsValid.read (hw : w.IsValid) :
    ∃ flags, MethodText.read.eval w.text = .ok (w.meaning flags) ∧
      ∀ f, flags.has f = true ↔ w.Raises f := by
  obtain ⟨signed, hsignature, hsigned⟩ := hw.signature.read hw.isEnd.endsTrailers
  obtain ⟨flags, r, hassigned, hflags⟩ := hw.readAssigned signed
  have hanswer : MethodText.read.answer w.text = (.ok (w.meaning flags), r) := by
    rw [← read_eq]
    refine (answer_bind_of_ok hsignature).trans ?_
    refine (answer_bind_of_ok (hw.readArrow signed w.type)).trans ?_
    exact (answer_bind_of_ok hassigned).trans rfl
  refine ⟨flags, congrArg Prod.fst hanswer, fun f => ?_⟩
  rw [hflags, hsigned, or_assoc]
  rfl

end Written

theorem Trailer.mem_flags {x : Trailer} {f : MethodFlag} :
    f ∈ x.flags ↔ f = .const ∧ x = .const ∨ f = .final ∧ x = .final ∨
      f = .noexcept ∧ (x = .noexcept ∨ ∃ condition, x = .noexceptIf condition) := by
  cases x
  all_goals simp [Trailer.flags]

end MethodText

/-! ### Methods in a header -/

/-- The method that is written behind a marker, without attributes. -/
def MethodText.Written.method (w : MethodText.Written) (site : MarkerSite) (access : Access)
    (flags : FlagSet MethodFlag) : Method where
  toDeclaration := { site.declaration (String.ofList w.name) [] with access }
  returnType := String.ofList w.type
  rawParameters := String.ofList (trim w.parameters)
  parameters := Parameter.ofList (trim w.parameters)
  flags := flags

theorem Parameter.ofList_trim (s : List Char) : Parameter.ofList (trim s) = Parameter.ofList s := by
  unfold Parameter.ofList
  rw [trim_trim]

theorem MethodText.Written.declares_method {w : MethodText.Written} {flags : FlagSet MethodFlag}
    (hflags : ∀ f, flags.has f = true ↔ w.Raises f) (site : MarkerSite) (access : Access) :
    w.Declares (w.method site access flags) where
  returnType := rfl
  name := rfl
  rawParameters := rfl
  parameters := Parameter.ofList_trim w.parameters
  virtual := (hflags _).trans (by simp [Raises, leadingWords, HasWord, Trailer.mem_flags])
  static := (hflags _).trans (by simp [Raises, leadingWords, HasWord, Trailer.mem_flags])
  inlined := (hflags _).trans (by simp [Raises, leadingWords, HasWord, Trailer.mem_flags])
  explicit := (hflags _).trans (by simp [Raises, leadingWords, HasWord, Trailer.mem_flags])
  const := (hflags _).trans (by simp [Raises, leadingWords, HasTrailer, Trailer.mem_flags])
  final := (hflags _).trans (by simp [Raises, leadingWords, HasTrailer, Trailer.mem_flags])
  noexcept := by
    have hraises : w.Raises .noexcept ↔
        ∃ x ∈ w.trailing.map (·.2), x = .noexcept ∨ ∃ condition, x = .noexceptIf condition := by
      simp [Raises, leadingWords, Trailer.mem_flags]
    refine (hflags _).trans (hraises.trans ?_)
    constructor
    · rintro ⟨x, hx, rfl | ⟨condition, rfl⟩⟩
      · exact .inl hx
      · exact .inr ⟨condition, hx⟩
    · rintro (hx | ⟨condition, hx⟩)
      · exact ⟨_, hx, .inl rfl⟩
      · exact ⟨_, hx, .inr ⟨condition, rfl⟩⟩
  abstract := (hflags _).trans (by simp [Raises, leadingWords, Trailer.mem_flags])

namespace Reader

open MethodText

variable {r : Reader}

/-- Where no attributes are given, a method is declared by its text alone. -/
theorem methodOf_written {w : MethodText.Written} {flags : FlagSet MethodFlag} {site : MarkerSite} {c : Class}
    (hread : MethodText.read.eval w.text = .ok (w.meaning flags)) (hdefaults : r.settings.defaults.methods = [])
    (hown : c.defaultMethodAttributes = []) (hsite : site.attributes = []) (access : Access) :
    r.methodOf site c access w.text = .ok (w.method site access flags) := by
  have hlift : (liftM (MethodText.read.eval w.text) : Checked MethodText) = .ok (w.meaning flags) :=
    lift_eq_ok.mpr hread
  unfold methodOf
  rw [hlift, hdefaults, hown, hsite]
  rfl

theorem claimProperties_method (w : MethodText.Written) (site : MarkerSite) (access : Access)
    (flags : FlagSet MethodFlag) (c : Class) : r.claimProperties c (w.method site access flags) = .ok c := rfl

/-- A line that is a marker with an empty attribute list, and nothing else. -/
def IsBareMarker (r : Reader) (kind : MarkerKind) (line : String) : Prop :=
  ∃ name behind rest, r.markers.find? (trim line.toList) = some (name, kind, behind) ∧ name ≠ r.markerName .body ∧
    Lexer.attributeList.split behind = .ok ([], rest) ∧ declarationText rest = []

/-- A method that is written on the line behind a marker becomes the last one of the open class, and it is declared
as it is written. -/
theorem runLines_method {w : MethodText.Written} (hw : w.IsValid) {p : Progress} {c : Class} {before : List Class}
    {n : Nat} {marker line : String} (hmode : p.mode = .between) (hclasses : p.classes = c :: before)
    (hbody : c.bodyLine ≠ 0) (hdefaults : r.settings.defaults.methods = []) (hown : c.defaultMethodAttributes = [])
    (hmarker : r.IsBareMarker .method marker) (hline : trim line.toList = w.text) :
    ∃ m, r.runLines p n [marker, line] =
        .ok { p with comments := [], classes := { c with methods := c.methods ++ [m] } :: before } ∧ w.Declares m := by
  obtain ⟨name, behind, rest, hfind, hname, hlist, hrest⟩ := hmarker
  obtain ⟨flags, hread, hflags⟩ := hw.read
  let site : MarkerSite := ⟨p.path, n, p.comments, []⟩
  let m := w.method site p.access flags
  have hfirst : r.readLine p n (trim marker.toList) =
      .ok { p with comments := [], mode := .declaration .method site } :=
    readLine_eq_ok.mpr (.marker hmode hfind hlist ⟨hname, hrest⟩)
  have hmethod : r.methodOf site c p.access w.text = .ok m := methodOf_written hread hdefaults hown rfl p.access
  have hsecond : r.readLine { p with comments := [], mode := .declaration .method site } (n + 1) (trim line.toList) =
      .ok { p with comments := [], classes := { c with methods := c.methods ++ [m] } :: before } := by
    rw [hline, hmode]
    have hclaims := claimProperties_method (r := r) w site p.access flags c
    exact readLine_eq_ok.mpr (.declaration rfl (.method hclasses hbody hmethod hclaims))
  refine ⟨m, ?_, w.declares_method hflags site p.access⟩
  exact bind_eq_ok.mpr ⟨_, placedAt_eq_ok.mpr hfirst, bind_eq_ok.mpr ⟨_, placedAt_eq_ok.mpr hsecond, rfl⟩⟩

theorem runLines_method_noexcept :
    ∃ m, (Reader.ofSettings {}).runLines
        { path := ⟨.relative, ["Unit.h"]⟩, classes := [{ name := "Unit", bodyLine := 3 }], access := .everyone } 4
        ["\tRMethod()", "\tvirtual  T<A, B> const* Run(int a = f(1)) noexcept(g(1)) const & = 0;"] =
      .ok { path := ⟨.relative, ["Unit.h"]⟩, classes := [{ name := "Unit", bodyLine := 3, methods := [m] }],
            access := .everyone } ∧
      m.returnType = "T<A, B> const*" ∧ m.name = "Run" ∧ m.rawParameters = "int a = f(1)" ∧
      m.flags.has .virtual = true ∧ m.flags.has .noexcept = true ∧ m.flags.has .abstract = true ∧
      m.flags.has .final = false := by
  let w : MethodText.Written := {
    leading := [("virtual".toList, "  ".toList)]
    type := "T<A, B> const*".toList
    gap := [' ']
    name := "Run".toList
    parameters := "int a = f(1)".toList
    trailing := [([' '], .noexceptIf "g(1)".toList), ([' '], .const), ([' '], .reference)]
    zero? := some ([' '], [' ']) }
  have hone : Bracket.round.IsBalanced IsPlainLiteral ['1'] := .of_forall (by decide)
  have hcondition : Bracket.round.IsBalanced IsPlainLiteral "g(1)".toList := .char (by decide) (.group hone .nil)
  have hdefault : Bracket.round.IsBalanced IsPlainLiteral "f(1)".toList := .char (by decide) (.group hone .nil)
  have hdeclarator : Bracket.round.IsBalanced IsPlainLiteral "int a = ".toList := .of_forall (by decide)
  have hw : w.IsValid := {
    leading := List.forall_mem_singleton.mpr ⟨by decide, by decide⟩
    type := by
      rw [Lexer.answer_typeText]
      cbv
    type_not_word := by decide
    type_not_native := by decide
    type_not_destructor := by decide
    type_not_operator := by decide
    gap := by decide
    name := ⟨by decide, by decide⟩
    name_not_const := by decide
    name_not_operator := by decide
    nameGap := by decide
    parameters := hdeclarator.append hdefault
    trailing := List.forall_mem_cons.mpr ⟨⟨by decide, hcondition⟩,
      List.forall_mem_cons.mpr ⟨⟨by decide, trivial⟩, List.forall_mem_singleton.mpr ⟨by decide, trivial⟩⟩⟩
    zero := fun p hp => Option.some.inj hp ▸ ⟨by decide, by decide⟩
    endGap := by decide }
  have hlist : Lexer.attributeList.split "()".toList = .ok ([], []) := by
    have hempty : Lexer.attributeList.answer "()".toList = (.ok [], []) := Lexer.answer_attributeList_empty []
    unfold Lexer.split
    rw [hempty]
  have hmarker : (Reader.ofSettings {}).IsBareMarker .method "\tRMethod()" :=
    ⟨"RMethod", "()".toList, [], by decide, by decide, hlist, by cbv⟩
  have hline : trim "\tvirtual  T<A, B> const* Run(int a = f(1)) noexcept(g(1)) const & = 0;".toList = w.text := by
    decide
  obtain ⟨m, hrun, hm⟩ := runLines_method
    (p := { path := ⟨.relative, ["Unit.h"]⟩, classes := [{ name := "Unit", bodyLine := 3 }], access := .everyone })
    (n := 4) hw rfl rfl (by decide) rfl rfl hmarker hline
  have htrim : trim w.parameters = w.parameters := by decide
  have hparameters := hm.rawParameters.trans (congrArg String.ofList htrim)
  refine ⟨m, hrun, hm.returnType.trans String.ofList_toList, hm.name.trans String.ofList_toList,
    hparameters.trans String.ofList_toList, hm.virtual.mpr ?_,
    hm.noexcept.mpr (.inr ⟨"g(1)".toList, ?_⟩), hm.abstract.mpr rfl, Bool.eq_false_iff.mpr (mt hm.final.mp ?_)⟩
  · exact List.mem_cons_self
  · exact List.mem_cons_self
  · unfold MethodText.Written.HasTrailer
    decide

end Reader

end HeaderReflection
