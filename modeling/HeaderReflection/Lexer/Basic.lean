import HeaderReflection.Fault
import HeaderReflection.Text.Identifier

/-! # Reading a line from the left

A lexer holds the part of a line that is not read yet.  Each operation takes characters away in front and
never puts any back; one that fails leaves the rest where it stopped, so that a caller can go on from there.

* What a lexer does on a text is `Lexer.answer`: its answer or a fault, together with what it leaves.
* Most operations skip blanks first, also where they then take nothing.
* A literal is taken wherever it comes next (`Lexer.swallow`), a word only where it ends
  (`Lexer.swallowWord`).

Lexers are put together in a monad, and so their failures end what follows them. -/

namespace HeaderReflection

open Text

/-- A reader of the unread part of a line. -/
abbrev Lexer := ExceptT Cause (StateM (List Char))

/-! ### Running a lexer -/

namespace Lexer

variable {α : Type}

/-- What a lexer answers on a text, and what it leaves. -/
def answer (m : Lexer α) (s : List Char) : Except Cause α × List Char := (ExceptT.run m).run s

/-- What a lexer answers on a text. -/
def eval (m : Lexer α) (s : List Char) : Except Cause α := (m.answer s).1

/-- What a lexer answers on a text together with what it leaves, unless it fails. -/
def split (m : Lexer α) (s : List Char) : Except Cause (α × List Char) :=
  match m.answer s with
  | (.ok a, r) => .ok (a, r)
  | (.error e, _) => .error e

/-! ### Looking ahead -/

/-- Skips blanks. -/
def trim : Lexer Unit := modify trimLeft

/-- The unread text. -/
def unread : Lexer (List Char) := get

/-- Whether something else than blanks is left. -/
def isNonblank : Lexer Bool := return !isBlankText (← get)

/-- The next character behind blanks, if there is one. -/
def peek : Lexer (List Char) := do
  trim
  return (← get).take 1

/-- Whether `literal` comes next, behind blanks. -/
def looking (literal : List Char) : Lexer Bool := do
  trim
  return literal.isPrefixOf (← get)

/-- Takes `n` characters; for a negative `n`, all but the last `-n`. -/
def advance (n : Int) : Lexer (List Char) := do
  let s ← get
  let k := if 0 ≤ n then n.toNat else s.length - (-n).toNat
  set (s.drop k)
  return s.take k

/-! ### Taking literals and words -/

/-- The rest of `s` behind `literal`, if `s` begins with it. -/
def dropLiteral? (literal s : List Char) : Option (List Char) :=
  if literal.isPrefixOf s then some (s.drop literal.length) else none

/-- The rest of `s` behind the word `word`, if `s` begins with it and the word ends there. -/
def dropWord? (word s : List Char) : Option (List Char) :=
  match dropLiteral? word s with
  | some (c :: rest) =>
    if isIdentifierChar c && (word.getLast?.map isIdentifierChar).getD false then none
    else some (c :: rest)
  | r => r

/-- Takes what `f` takes of the text behind blanks, and says whether it took something. -/
def swallowBy (f : List Char → Option (List Char)) : Lexer Bool := do
  trim
  match f (← get) with
  | some rest => set rest; return true
  | none => return false

/-- Takes `literal` if it comes next. -/
def swallow (literal : List Char) : Lexer Bool := swallowBy (dropLiteral? literal)

/-- Takes the word `word` if it comes next. -/
def swallowWord (word : List Char) : Lexer Bool := swallowBy (dropWord? word)

/-- Fails for want of `what`. -/
def missing (what : String) : Lexer α := do
  throw (.expected what (String.ofList (← get)))

/-- Takes `literal`, which has to come next. -/
def expect (literal : List Char) : Lexer Unit := do
  unless ← swallow literal do
    missing (String.ofList literal)

/-! ### Taking runs of characters -/

/-- Takes a run of identifier characters. -/
def identifier : Lexer (List Char) := do
  trim
  let s ← get
  let name := s.takeWhile isIdentifierChar
  if name.isEmpty then missing "identifier"
  set (s.drop name.length)
  return name

/-- Takes everything before the first character of `stops`. -/
def upTo (stops : List Char) : Lexer (List Char) := do
  let s ← get
  set (s.dropWhile (!stops.contains ·))
  return s.takeWhile (!stops.contains ·)

/-- Takes everything. -/
def rest : Lexer (List Char) := do
  let s ← get
  set ([] : List Char)
  return s

/-- The text that a lexer took between `before` and `after`, the latter an end of the former. -/
def taken (before after : List Char) : List Char := before.take (before.length - after.length)

/-! ### Texts that are taken -/

theorem taken_append (w t : List Char) : taken (w ++ t) t = w := by simp [taken]

theorem dropLiteral?_eq_some {literal s rest : List Char} :
    dropLiteral? literal s = some rest ↔ s = literal ++ rest := by
  unfold dropLiteral?
  by_cases h : literal.isPrefixOf s = true
  · obtain ⟨t, rfl⟩ := List.isPrefixOf_iff_prefix.mp h
    simp only [h, if_true, List.drop_left, Option.some.injEq, List.append_cancel_left_eq]
  · simp only [h, Bool.false_eq_true, if_false, reduceCtorEq, false_iff]
    rintro rfl
    exact h (List.isPrefixOf_iff_prefix.mpr ⟨rest, rfl⟩)

/-- A word is taken as a literal is. -/
theorem eq_append_of_dropWord? {word s rest : List Char} (h : dropWord? word s = some rest) :
    s = word ++ rest := by
  unfold dropWord? at h
  split at h
  · rename_i c r e
    split at h
    · exact absurd h (by simp)
    · exact dropLiteral?_eq_some.mp (e.trans h)
  · exact dropLiteral?_eq_some.mp h

end Lexer

end HeaderReflection
