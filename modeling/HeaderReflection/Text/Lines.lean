/-! # Lines

Two ways to see line ends: `lines` breaks a text at every line boundary of Unicode, and
`universalNewlines` first reduces the three ends of files (`\r\n`, `\r`, `\n`) to one.

A carriage return followed by a line feed is one boundary, and a text that ends with a boundary has
no last empty line. -/

namespace HeaderReflection.Text

/-- The characters that end a line. -/
def isLineEnd (c : Char) : Bool :=
  let n := c.toNat
  (0x0A ≤ n && n ≤ 0x0D) || (0x1C ≤ n && n ≤ 0x1E) || n == 0x85 || n == 0x2028 || n == 0x2029

/-- The lines of a text, the first of which begins with the characters already in `line`, the last
of them in front. -/
def linesFrom (line : List Char) : List Char → List (List Char)
  | [] => if line.isEmpty then [] else [line.reverse]
  | '\r' :: '\n' :: s => line.reverse :: linesFrom [] s
  | c :: s => if isLineEnd c then line.reverse :: linesFrom [] s else linesFrom (c :: line) s

/-- The lines of a text, without their ends. -/
def lines (s : String) : List String := (linesFrom [] s.toList).map String.ofList

/-- The three line ends of files all become a line feed. -/
def universalNewlines : List Char → List Char
  | [] => []
  | '\r' :: '\n' :: s => '\n' :: universalNewlines s
  | c :: s => (if c = '\r' then '\n' else c) :: universalNewlines s

/-- A text holds no carriage return afterwards. -/
theorem not_mem_universalNewlines (s : List Char) : '\r' ∉ universalNewlines s := by
  fun_induction universalNewlines s with
  | case1 => simp
  | case2 s ih => simp [ih]
  | case3 c s _ ih =>
      simp only [List.mem_cons, not_or]
      refine ⟨?_, ih⟩
      split
      · decide
      · exact fun h => ‹c ≠ '\r'› h.symm

end HeaderReflection.Text
