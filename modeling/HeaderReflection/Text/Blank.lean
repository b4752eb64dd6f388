/-! # Blank characters

The white space of Unicode, which is more than the four characters of ASCII, and the trimming of
texts at either end.  Texts under inspection are lists of characters.

* `trimLeft` drops blanks in front, `trimRight` behind, `trim` on both sides;
* each of them removes a blank run and nothing else (`exists_trimLeft`, `exists_trimRight`). -/

namespace HeaderReflection.Text

/-! ### White space -/

/-- White space of Unicode. -/
def isBlank (c : Char) : Bool :=
  let n := c.toNat
  (0x09 ≤ n && n ≤ 0x0D) || (0x1C ≤ n && n ≤ 0x20) || n == 0x85 || n == 0xA0 || n == 0x1680 ||
    (0x2000 ≤ n && n ≤ 0x200A) || n == 0x2028 || n == 0x2029 || n == 0x202F || n == 0x205F ||
    n == 0x3000

/-! ### Trimming -/

/-- Without the blanks in front. -/
def trimLeft (s : List Char) : List Char := s.dropWhile isBlank

/-- Without the blanks behind. -/
def trimRight (s : List Char) : List Char := (s.reverse.dropWhile isBlank).reverse

/-- Without the blanks on both sides. -/
def trim (s : List Char) : List Char := trimRight (trimLeft s)

/-- `trim` on strings. -/
def trimmed (s : String) : String := String.ofList (trim s.toList)

/-- A text of blanks only. -/
def isBlankText (s : List Char) : Bool := s.all isBlank

/-! ### What trimming removes -/

@[simp] theorem trimLeft_nil : trimLeft [] = [] := rfl

@[simp] theorem trimRight_nil : trimRight [] = [] := rfl

@[simp] theorem trim_nil : trim [] = [] := rfl

/-- Trimming in front removes a run of blanks. -/
theorem exists_trimLeft (s : List Char) :
    ∃ w, s = w ++ trimLeft s ∧ ∀ c ∈ w, isBlank c = true :=
  ⟨s.takeWhile isBlank, List.takeWhile_append_dropWhile.symm, fun _ h => by
    have := List.all_takeWhile (p := isBlank) (l := s)
    exact List.all_eq_true.mp this _ h⟩

/-- Trimming behind removes a run of blanks. -/
theorem exists_trimRight (s : List Char) :
    ∃ w, s = trimRight s ++ w ∧ ∀ c ∈ w, isBlank c = true := by
  obtain ⟨w, e, hw⟩ := exists_trimLeft s.reverse
  refine ⟨w.reverse, ?_, fun c h => hw c (List.mem_reverse.mp h)⟩
  have := congrArg List.reverse e
  simpa [trimLeft, trimRight] using this

theorem trimLeft_suffix (s : List Char) : trimLeft s <:+ s := List.dropWhile_suffix _

/-- Trimming in front is done once. -/
theorem trimLeft_trimLeft (s : List Char) : trimLeft (trimLeft s) = trimLeft s := by
  induction s with
  | nil => rfl
  | cons c s ih =>
      cases h : isBlank c with
      | true => simpa [trimLeft, h] using ih
      | false => simp [trimLeft, h]

theorem trimRight_append_cons {d : Char} (hd : isBlank d = false) (u v : List Char) :
    trimRight (u ++ d :: v) = u ++ d :: trimRight v := by
  unfold trimRight
  rw [List.reverse_append, List.reverse_cons, List.append_assoc, List.dropWhile_append]
  split
  · rename_i hnil
    rw [List.isEmpty_iff.mp hnil]
    simp [hd]
  · simp

theorem length_trimLeft_le (s : List Char) : (trimLeft s).length ≤ s.length :=
  (trimLeft_suffix s).length_le

end HeaderReflection.Text
