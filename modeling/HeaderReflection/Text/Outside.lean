import HeaderReflection.Text.Blank

/-! # Outside brackets

Cutting a text at a character that stands outside all brackets.  One count covers every kind of
bracket that takes part, and a closing bracket too many makes it negative, which is not outside
either.

* `splitOutside` cuts at every such comma, and the pieces with the commas make up the text again
  (`intercalate_splitOutside`);
* `cutOutside?` cuts once, at the first such character of a kind. -/

namespace HeaderReflection.Text

/-! ### Sets of brackets -/

/-- The brackets that take part. -/
structure BracketSet where
  openers : List Char
  closers : List Char
  deriving DecidableEq, Repr

/-- The count of open brackets behind a character. -/
def BracketSet.after (b : BracketSet) (depth : Int) (c : Char) : Int :=
  if b.openers.contains c then depth + 1
  else if b.closers.contains c then depth - 1
  else depth

/-- All four kinds of brackets. -/
def allBrackets : BracketSet := ⟨"([<\x7b".toList, ")]>\x7d".toList⟩

/-- The kinds of brackets that types use. -/
def typeBrackets : BracketSet := ⟨"(<[".toList, ")>]".toList⟩

/-! ### Cutting -/

/-- The pieces between the commas outside brackets. -/
def splitOutside (b : BracketSet) (depth : Int) : List Char → List (List Char)
  | [] => [[]]
  | c :: s =>
    if c = ',' ∧ depth = 0 then [] :: splitOutside b depth s
    else
      match splitOutside b (b.after depth c) s with
      | p :: ps => (c :: p) :: ps
      | [] => [[c]]

/-- The text before the first character outside brackets that satisfies `stop`, that character, and
the text behind it. -/
def cutOutside? (b : BracketSet) (stop : Char → Bool) (depth : Int) :
    List Char → Option (List Char × Char × List Char)
  | [] => none
  | c :: s =>
    if stop c && depth == 0 then some ([], c, s)
    else (cutOutside? b stop (b.after depth c) s).map fun p => (c :: p.1, p.2)

theorem splitOutside_ne_nil (b : BracketSet) (depth : Int) (s : List Char) :
    splitOutside b depth s ≠ [] := by
  cases s with
  | nil => simp [splitOutside]
  | cons c s => simp only [splitOutside]; repeat' split; all_goals simp

/-- The pieces with the commas between them make up the text. -/
theorem intercalate_splitOutside (b : BracketSet) (depth : Int) (s : List Char) :
    [','].intercalate (splitOutside b depth s) = s := by
  induction s generalizing depth with
  | nil => rfl
  | cons c s ih =>
      simp only [splitOutside]
      split
      · rename_i h
        have := ih depth
        cases hp : splitOutside b depth s with
        | nil => exact absurd hp (splitOutside_ne_nil b depth s)
        | cons p ps =>
            rw [hp] at this
            rw [← this, h.1]
            rfl
      · have := ih (b.after depth c)
        cases hp : splitOutside b (b.after depth c) s with
        | nil => exact absurd hp (splitOutside_ne_nil b _ s)
        | cons p ps =>
            rw [hp] at this
            rw [← this]
            cases ps <;> rfl

end HeaderReflection.Text
