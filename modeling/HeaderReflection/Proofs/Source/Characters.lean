import HeaderReflection.Source.Progress

/-! # Reading the characters of a text

A header is read line by line, and every line is a text again.  Going over the lines as lists of characters
answers the same (`Reader.read_ofList`), and no line is put together on the way.

What becomes of a given text can be computed this way: the characters of a text that is written out are a
closed list, over which the reader runs as a structural recursion.  Witnesses of statements on headers are
evaluated so, and where such a text consists of two parts, it is the characters of both
(`Reader.read_ofList_append`). -/

namespace HeaderReflection

/-! ### Lines -/

theorem Text.lines_ofList (s : List Char) : lines (String.ofList s) = (linesFrom [] s).map String.ofList := by
  rw [lines, String.toList_ofList]

theorem Text.lines_ofList_append (s t : List Char) :
    lines (String.ofList s ++ String.ofList t) = (linesFrom [] (s ++ t)).map String.ofList := by
  rw [← String.ofList_append, lines_ofList]

namespace Reader

open Text

/-! ### Reading -/

/-- Reads lines of characters, the first of which has the number `n`. -/
def runCharacters (r : Reader) (p : Progress) (n : Nat) : List (List Char) → Checked Progress
  | [] => .ok p
  | l :: ls => do
    let q ← (r.readLine p n (trim l)).placedAt p.path n
    r.runCharacters q (n + 1) ls

/-- The header with the given characters. -/
def readCharacters (r : Reader) (path : SourcePath) (text : List Char) : Checked Header := do
  Checked.placedAt (r.checkDefaults : Except Cause Unit) path 0
  let lines := linesFrom [] text
  let p ← r.runCharacters { path } 1 lines
  (r.finish p).placedAt path lines.length

theorem runLines_map_ofList (r : Reader) (p : Progress) (n : Nat) (ls : List (List Char)) :
    r.runLines p n (ls.map String.ofList) = r.runCharacters p n ls := by
  induction ls generalizing p n with
  | nil => rfl
  | cons l ls ih => simp only [List.map_cons, runLines, runCharacters, String.toList_ofList, ih]

theorem read_toList (r : Reader) (path : SourcePath) (text : String) :
    r.read path text = r.readCharacters path text.toList := by
  unfold read readCharacters lines
  simp only [runLines_map_ofList, List.length_map]

/-- A text that is given by its characters is read as these. -/
theorem read_ofList (r : Reader) (path : SourcePath) (text : List Char) :
    r.read path (String.ofList text) = r.readCharacters path text := by
  rw [read_toList, String.toList_ofList]

theorem read_ofList_append (r : Reader) (path : SourcePath) (s t : List Char) :
    r.read path (String.ofList s ++ String.ofList t) = r.readCharacters path (s ++ t) := by
  rw [← String.ofList_append, read_ofList]

end Reader

end HeaderReflection
