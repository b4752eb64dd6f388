import HeaderReflection.Text.Lines

/-! # Texts and their lines

A text is cut into lines at its line ends: a line feed, a carriage return, the two of them in a row, and some
rarer characters.

* No line of a text holds a line end (`Text.not_isLineEnd_of_mem_lines`).
* Lines without line ends can be put together to a text, a line feed behind each, and they are the lines of
  this text (`Text.lines_unlines`).

The second point is how statements on single lines are turned into statements on texts.  Both are shown for a
text of which a part was read already, whose characters are kept with the last one first. -/

namespace HeaderReflection.Text

theorem linesFrom_cons {c : Char} (hc : isLineEnd c = false) (line s : List Char) :
    linesFrom line (c :: s) = linesFrom (c :: line) s := by
  have hreturn : c ≠ '\r' := by
    rintro rfl
    cases hc
  rw [linesFrom.eq_def]
  split
  · rename_i heq
    cases heq
  · rename_i heq
    exact absurd (List.cons.inj heq).1 hreturn
  · rename_i heq
    obtain ⟨rfl, rfl⟩ := List.cons.inj heq
    rw [if_neg (by simp [hc])]

/-- A line goes up to the next line end. -/
theorem linesFrom_append {l : List Char} (hl : ∀ c ∈ l, isLineEnd c = false) (line s : List Char) :
    linesFrom line (l ++ '\n' :: s) = (line.reverse ++ l) :: linesFrom [] s := by
  induction l generalizing line with
  | nil => simp [linesFrom, isLineEnd]
  | cons c l ih =>
      obtain ⟨hc, hl⟩ := List.forall_mem_cons.mp hl
      rw [List.cons_append, linesFrom_cons hc, ih hl, List.reverse_cons, List.append_assoc]
      rfl

theorem not_isLineEnd_of_mem_linesFrom {line s : List Char} (hline : ∀ c ∈ line, isLineEnd c = false) :
    ∀ l ∈ linesFrom line s, ∀ c ∈ l, isLineEnd c = false := by
  have hreverse : ∀ {line : List Char}, (∀ c ∈ line, isLineEnd c = false) → ∀ c ∈ line.reverse, isLineEnd c = false :=
    fun h c hc => h c (List.mem_reverse.mp hc)
  fun_induction linesFrom line s with
  | case1 line hempty => exact List.forall_mem_nil _
  | case2 line hempty => exact List.forall_mem_singleton.mpr (hreverse hline)
  | case3 line s ih => exact List.forall_mem_cons.mpr ⟨hreverse hline, ih (List.forall_mem_nil _)⟩
  | case4 line c s _ hend ih => exact List.forall_mem_cons.mpr ⟨hreverse hline, ih (List.forall_mem_nil _)⟩
  | case5 line c s _ hend ih => exact ih (List.forall_mem_cons.mpr ⟨Bool.eq_false_iff.mpr hend, hline⟩)

theorem not_isLineEnd_of_mem_lines {s l : String} (hl : l ∈ lines s) : ∀ c ∈ l.toList, isLineEnd c = false := by
  obtain ⟨l, hmem, rfl⟩ := List.mem_map.mp hl
  rw [String.toList_ofList]
  exact not_isLineEnd_of_mem_linesFrom (List.forall_mem_nil _) l hmem

/-! ### Texts from lines -/

/-- The text with the given lines. -/
def unlines (ls : List String) : String := String.ofList (ls.flatMap fun l => l.toList ++ ['\n'])

theorem lines_unlines {ls : List String} (h : ∀ l ∈ ls, ∀ c ∈ l.toList, isLineEnd c = false) :
    lines (unlines ls) = ls := by
  unfold lines unlines
  rw [String.toList_ofList]
  induction ls with
  | nil => rfl
  | cons l ls ih =>
      obtain ⟨hl, hls⟩ := List.forall_mem_cons.mp h
      rw [List.flatMap_cons, List.append_assoc, List.singleton_append, linesFrom_append hl, List.reverse_nil,
        List.nil_append, List.map_cons, ih hls, String.ofList_toList]

end HeaderReflection.Text
