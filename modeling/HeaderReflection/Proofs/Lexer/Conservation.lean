import HeaderReflection.Lexer.Step
import HeaderReflection.Proofs.Text.Outside

/-! # What operations take and leave

A lexer holds a text, and operations are performed on it one after the other.  No operation invents, doubles
or moves a character.

* It takes a piece away in front of the text and leaves the rest, also where it fails (`Lexer.LeavesEnd`).
* Where it answers, its answer tells which characters the piece had (`Lexer.Step.Accounts`): a word is the
  piece without the blanks in front, a type the piece without the blanks around it, a group the piece without
  its brackets, and so on.

A sequence of operations takes one piece after the other, so what is left behind any number of them is an end
of the text at the beginning (`Lexer.replay_conserves`).  This is an induction on the sequence.  An operation
that fails leaves what it has not taken, and the next operation goes on there; a type that is refused has lost
its qualifiers, other lexers only the blanks in front. -/

namespace HeaderReflection.Lexer

open Text

variable {α β : Type}

/-! ### What is left -/

/-- A lexer leaves an end of the text, whether it answers or fails. -/
def LeavesEnd (m : Lexer α) : Prop := ∀ s, (m.answer s).2 <:+ s

namespace LeavesEnd

theorem pure (a : α) : LeavesEnd (Pure.pure a) := fun _ => List.suffix_rfl

theorem bind {m : Lexer α} {f : α → Lexer β} (hm : m.LeavesEnd) (hf : ∀ a, (f a).LeavesEnd) :
    LeavesEnd (m >>= f) := by
  intro s
  have hfirst := hm s
  cases hcase : m.answer s with
  | mk o t =>
      rw [hcase] at hfirst
      cases o with
      | ok a =>
          rw [answer_bind_of_ok hcase]
          exact (hf a t).trans hfirst
      | error e =>
          rw [answer_bind_of_error hcase]
          exact hfirst

end LeavesEnd

theorem leavesEnd_trim : Lexer.trim.LeavesEnd := trimLeft_suffix

theorem leavesEnd_missing (what : String) : (missing what : Lexer α).LeavesEnd := fun _ => List.suffix_rfl

theorem leavesEnd_looking (literal : List Char) : (looking literal).LeavesEnd := trimLeft_suffix

theorem leavesEnd_peek : peek.LeavesEnd := trimLeft_suffix

theorem leavesEnd_isNonblank : isNonblank.LeavesEnd := fun _ => List.suffix_rfl

theorem leavesEnd_advance (n : Int) : (advance n).LeavesEnd := fun _ => List.drop_suffix _ _

theorem leavesEnd_swallowBy {f : List Char → Option (List Char)} (hf : ∀ s r, f s = some r → r <:+ s) :
    (swallowBy f).LeavesEnd := by
  intro s
  rw [answer_swallowBy]
  cases htaken : f (trimLeft s) with
  | none => exact trimLeft_suffix s
  | some r => exact (hf _ r htaken).trans (trimLeft_suffix s)

theorem leavesEnd_swallow (literal : List Char) : (swallow literal).LeavesEnd :=
  leavesEnd_swallowBy fun _ _ h => ⟨literal, (dropLiteral?_eq_some.mp h).symm⟩

theorem leavesEnd_swallowWord (word : List Char) : (swallowWord word).LeavesEnd :=
  leavesEnd_swallowBy fun _ _ h => ⟨word, (eq_append_of_dropWord? h).symm⟩

theorem leavesEnd_expect (literal : List Char) : (expect literal).LeavesEnd := by
  refine .bind (leavesEnd_swallow literal) fun found => ?_
  cases found with
  | true => exact .pure ()
  | false => exact leavesEnd_missing _

theorem leavesEnd_identifier : identifier.LeavesEnd := by
  intro s
  rw [answer_identifier]
  split
  · exact trimLeft_suffix s
  · exact (List.dropWhile_suffix _).trans (trimLeft_suffix s)

/-- A type that is refused has lost its qualifiers and nothing behind them. -/
theorem leavesEnd_typeText : typeText.LeavesEnd := by
  intro s
  have hqualified := (skipWords_suffix typeQualifiers (trimLeft s)).trans (trimLeft_suffix s)
  rw [answer_typeText]
  cases hrun : typeRun {} (skipWords typeQualifiers (trimLeft s)) with
  | error e => exact hqualified
  | ok rest => exact (skipWords_suffix typeTrailers rest).trans ((typeRun_suffix hrun).trans hqualified)

theorem leavesEnd_expression : expression.LeavesEnd := by
  intro s
  rw [answer_expression]
  cases hrun : expressionRun {} (trimLeft s) with
  | error e => exact trimLeft_suffix s
  | ok rest => exact (expressionRun_suffix hrun).trans (trimLeft_suffix s)

theorem leavesEnd_balanced (b : Bracket) : (balanced b).LeavesEnd := by
  intro s
  have hskipped := trimLeft_suffix s
  rw [answer_balanced]
  cases htext : trimLeft s with
  | nil => exact List.nil_suffix
  | cons c v =>
      rw [htext] at hskipped
      dsimp only
      split
      · cases hgroup : groupRun b 1 none c v with
        | none => exact hskipped
        | some p =>
            have hclosed : p.2 <:+ c :: v := ⟨c :: (p.1 ++ [b.closer]), by simp [groupRun_eq_some hgroup]⟩
            exact hclosed.trans hskipped
      · exact hskipped

theorem leavesEnd_upTo (stops : List Char) : (upTo stops).LeavesEnd := fun _ => List.dropWhile_suffix _

theorem leavesEnd_rest : rest.LeavesEnd := fun _ => List.nil_suffix

theorem Step.leavesEnd_perform (p : Step) : p.perform.LeavesEnd := by
  cases p with
  | trim => exact .bind leavesEnd_trim fun _ => .pure _
  | peek => exact .bind leavesEnd_peek fun _ => .pure _
  | looking l => exact .bind (leavesEnd_looking l) fun _ => .pure _
  | advance n => exact .bind (leavesEnd_advance n) fun _ => .pure _
  | swallow l => exact .bind (leavesEnd_swallow l) fun _ => .pure _
  | swallowWord w => exact .bind (leavesEnd_swallowWord w) fun _ => .pure _
  | expect l => exact .bind (leavesEnd_expect l) fun _ => .pure _
  | identifier => exact .bind leavesEnd_identifier fun _ => .pure _
  | typeText => exact .bind leavesEnd_typeText fun _ => .pure _
  | expression => exact .bind leavesEnd_expression fun _ => .pure _
  | balanced b => exact .bind (leavesEnd_balanced b) fun _ => .pure _
  | upTo l => exact .bind (leavesEnd_upTo l) fun _ => .pure _
  | rest => exact .bind leavesEnd_rest fun _ => .pure _
  | isNonblank => exact .bind leavesEnd_isNonblank fun _ => .pure _

/-! ### What is taken -/

/-- The pieces that an operation may take in front of a text when it gives an answer. -/
def Step.Accounts : Step → List Char → Answer → Prop
  | .isNonblank, t, _ => t = []
  | .trim, t, _ | .peek, t, _ | .looking _, t, _ => isBlankText t = true
  | .swallow l, t, a | .swallowWord l, t, a =>
    ∃ u b, isBlankText u = true ∧ a = .truth b ∧ t = u ++ if b then l else []
  | .expect l, t, _ => ∃ u, isBlankText u = true ∧ t = u ++ l
  | .advance _, t, a => a = .text t
  | .identifier, t, a | .typeText, t, a | .expression, t, a | .upTo _, t, a | .rest, t, a =>
    ∃ w, a = .text w ∧ Text.trim t = Text.trim w
  | .balanced b, t, a => ∃ w, a = .text w ∧ trimLeft t = b.opener :: (w ++ [b.closer])

/-- A lexer that skips the blanks in front takes what it answers without the blanks around it. -/
theorem takes_trimmed {m : Lexer (List Char)}
    (hm : ∀ s a r, m.answer s = (.ok a, r) → ∃ t, trimLeft s = t ++ r ∧ a = Text.trim t) :
    m.Takes fun t a => Text.trim t = Text.trim a := by
  intro s a r h
  obtain ⟨t, ht, rfl⟩ := hm s a r h
  obtain ⟨u, hs, hu⟩ := exists_blank_trimLeft s
  refine ⟨u ++ t, ?_, ?_⟩
  · rw [List.append_assoc, ← ht, ← hs]
  · show Text.trim (u ++ t) = Text.trim (Text.trim t)
    rw [trim_blank_append hu, trim_trim]

theorem takes_split {m : Lexer (List Char)} (hm : ∀ s, ∃ w r, m.answer s = (.ok w, r) ∧ s = w ++ r) :
    m.Takes fun t a => a = t := by
  intro s a r h
  obtain ⟨w, r', hsplit, hs⟩ := hm s
  cases hsplit.symm.trans h
  exact ⟨a, hs, rfl⟩

theorem Takes.answer {m : Lexer α} {P : List Char → α → Prop} {p : Step} (hm : m.Takes P) (f : α → Answer)
    (h : ∀ t a, P t a → p.Accounts t (f a)) : Takes (m >>= fun a => Pure.pure (f a)) p.Accounts :=
  .bind hm fun t a ha => .pure (by rw [List.append_nil]; exact h t a ha)

theorem Step.takes_perform (p : Step) : p.perform.Takes p.Accounts := by
  cases p with
  | trim => exact takes_trim.answer (fun _ => .nothing) fun _ _ h => h
  | looking l => exact (takes_looking l).answer .truth fun _ _ h => h
  | peek =>
      have htakes : Lexer.peek.Takes fun t _ => isBlankText t = true := by
        intro s a r h
        cases h
        exact exists_blank_trimLeft s
      exact htakes.answer .text fun _ _ h => h
  | isNonblank =>
      have htakes : Lexer.isNonblank.Takes fun t _ => t = [] := by
        intro s a r h
        cases h
        exact ⟨[], rfl, rfl⟩
      exact htakes.answer .truth fun _ _ h => h
  | advance n =>
      refine (takes_split fun s => ?_).answer .text fun _ _ h => congrArg Answer.text h
      exact ⟨_, _, rfl, (List.take_append_drop _ s).symm⟩
  | swallow l =>
      refine (takes_swallow l).answer .truth fun t b h => ?_
      obtain ⟨u, hu, ht⟩ := h
      exact ⟨u, b, hu, rfl, ht⟩
  | swallowWord w =>
      refine (takes_swallowWord w).answer .truth fun t b h => ?_
      obtain ⟨u, hu, ht⟩ := h
      exact ⟨u, b, hu, rfl, ht⟩
  | expect l => exact (takes_expect l).answer (fun _ => .nothing) fun _ _ h => h
  | identifier =>
      refine takes_identifier.answer .text fun t w h => ?_
      obtain ⟨-, u, hu, rfl⟩ := h
      exact ⟨w, rfl, trim_blank_append hu w⟩
  | typeText =>
      refine (takes_trimmed fun s a r h => ?_).answer .text fun t w h => ⟨w, rfl, h⟩
      obtain ⟨t, ht, ha, -⟩ := typeText_closes h
      exact ⟨t, ht, ha⟩
  | expression =>
      refine (takes_trimmed fun s a r h => ?_).answer .text fun t w h => ⟨w, rfl, h⟩
      obtain ⟨t, ht, ha, -⟩ := expression_settles h
      exact ⟨t, ht, ha⟩
  | balanced b =>
      refine (takes_balanced b).answer .text fun t w h => ?_
      obtain ⟨u, hu, -, rfl⟩ := h
      refine ⟨w, rfl, ?_⟩
      rw [trimLeft_blank_append hu]
      cases b
      all_goals rfl
  | upTo l =>
      refine (takes_split fun s => ?_).answer .text fun t w h => ⟨w, rfl, by rw [h]⟩
      exact ⟨_, _, rfl, List.takeWhile_append_dropWhile.symm⟩
  | rest =>
      refine (takes_split fun s => ?_).answer .text fun t w h => ⟨w, rfl, by rw [h]⟩
      exact ⟨s, [], rfl, (List.append_nil s).symm⟩

/-- One operation takes a piece away in front of the text, and accounts for it unless it fails. -/
theorem Step.exists_piece (p : Step) (s : List Char) :
    ∃ t, s = t ++ (p.perform.answer s).2 ∧ ∀ a, (p.perform.answer s).1 = .ok a → p.Accounts t a := by
  cases hcase : (p.perform.answer s).1 with
  | ok a =>
      obtain ⟨t, hs, ht⟩ := p.takes_perform s a (p.perform.answer s).2 (Prod.ext hcase rfl)
      refine ⟨t, hs, fun x hx => ?_⟩
      obtain rfl := Except.ok.inj hx
      exact ht
  | error e =>
      obtain ⟨t, ht⟩ := p.leavesEnd_perform s
      exact ⟨t, ht.symm, nofun⟩

/-! ### Sequences of operations -/

/-- Every operation takes a piece off the text that the one before it left, and accounts for it unless it fails. -/
def Conserves : List Char → List Step → List (Except Cause Answer × List Char) → Prop
  | _, [], [] => True
  | s, p :: ps, (o, r) :: outcomes =>
    (∃ t, s = t ++ r ∧ ∀ a, o = .ok a → p.Accounts t a) ∧ Conserves r ps outcomes
  | _, _, _ => False

theorem Conserves.suffix {s : List Char} {ps : List Step} {outcomes : List (Except Cause Answer × List Char)}
    (h : Conserves s ps outcomes) : ∀ o ∈ outcomes, o.2 <:+ s := by
  induction outcomes generalizing s ps with
  | nil => exact List.forall_mem_nil _
  | cons o outcomes ih =>
      cases ps with
      | nil => exact h.elim
      | cons p ps =>
          obtain ⟨⟨t, rfl, -⟩, hrest⟩ := h
          have hfirst : o.2 <:+ t ++ o.2 := List.suffix_append t o.2
          exact List.forall_mem_cons.mpr ⟨hfirst, fun x hx => (ih hrest x hx).trans hfirst⟩

/-- Whatever operations are performed on a text, in whatever order and whether or not some of them fail: each one takes
a piece off what the one before it left and accounts for it, and what is left is always an end of the text. -/
theorem replay_conserves (s : List Char) (ps : List Step) :
    (∀ o ∈ replay s ps, o.2 <:+ s) ∧ Conserves s ps (replay s ps) := by
  have hrun : Conserves s ps (replay s ps) := by
    induction ps generalizing s with
    | nil => trivial
    | cons p ps ih => exact ⟨p.exists_piece s, ih _⟩
  exact ⟨hrun.suffix, hrun⟩

end HeaderReflection.Lexer
