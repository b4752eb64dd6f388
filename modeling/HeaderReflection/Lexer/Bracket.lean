/-! # Brackets

The four kinds of brackets, and how many of each kind are open.

The kinds are counted apart (`Depths`), so a closing bracket of one kind does not close another one, but
groups of different kinds may cross.  A bracket that closes nothing cannot be counted (`Depths.closed?`). -/

namespace HeaderReflection

/-! ### Kinds of brackets -/

/-- The kinds of brackets. -/
inductive Bracket where
  | round
  | square
  | curly
  | angle
  deriving DecidableEq, Repr

namespace Bracket

/-- The opening character. -/
def opener : Bracket → Char
  | .round => '('
  | .square => '['
  | .curly => '\x7b'
  | .angle => '<'

/-- The closing character. -/
def closer : Bracket → Char
  | .round => ')'
  | .square => ']'
  | .curly => '\x7d'
  | .angle => '>'

/-- The kind that a character opens. -/
def ofOpener? (c : Char) : Option Bracket :=
  [Bracket.round, .square, .curly, .angle].find? (·.opener == c)

/-- The kind that a character closes. -/
def ofCloser? (c : Char) : Option Bracket :=
  [Bracket.round, .square, .curly, .angle].find? (·.closer == c)

theorem ofOpener?_opener (b : Bracket) : ofOpener? b.opener = some b := by cases b <;> decide

theorem ofCloser?_closer (b : Bracket) : ofCloser? b.closer = some b := by cases b <;> decide

end Bracket

/-! ### Open brackets -/

/-- How many brackets of each kind are open. -/
structure Depths where
  round : Nat := 0
  square : Nat := 0
  curly : Nat := 0
  angle : Nat := 0
  deriving DecidableEq, Repr

namespace Depths

/-- The number of open brackets of a kind. -/
def of (d : Depths) : Bracket → Nat
  | .round => d.round
  | .square => d.square
  | .curly => d.curly
  | .angle => d.angle

/-- Replaces the number of open brackets of a kind. -/
def set (d : Depths) (n : Nat) : Bracket → Depths
  | .round => { d with round := n }
  | .square => { d with square := n }
  | .curly => { d with curly := n }
  | .angle => { d with angle := n }

/-- One bracket more is open. -/
def opened (d : Depths) (b : Bracket) : Depths := d.set (d.of b + 1) b

/-- One bracket less is open, if one was. -/
def closed? (d : Depths) (b : Bracket) : Option Depths :=
  if d.of b = 0 then none else some (d.set (d.of b - 1) b)

/-- No bracket is open. -/
def isZero (d : Depths) : Bool := d == {}

@[simp] theorem of_set (d : Depths) (n : Nat) (a b : Bracket) :
    (d.set n b).of a = if a = b then n else d.of a := by
  cases a <;> cases b <;> simp [set, of]

theorem isZero_iff (d : Depths) : d.isZero = true ↔ ∀ b, d.of b = 0 := by
  obtain ⟨r, s, c, a⟩ := d
  simp only [isZero, beq_iff_eq, Depths.mk.injEq]
  constructor
  · rintro ⟨rfl, rfl, rfl, rfl⟩ b
    cases b <;> rfl
  · intro h
    exact ⟨h .round, h .square, h .curly, h .angle⟩

theorem closed?_opened (d : Depths) (b : Bracket) : (d.opened b).closed? b = some d := by
  cases b <;> simp [opened, closed?, set, of]

end Depths

end HeaderReflection
