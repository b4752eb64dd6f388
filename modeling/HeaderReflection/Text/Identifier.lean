import HeaderReflection.Text.Alphanumeric
import HeaderReflection.Text.Blank

/-! # Identifiers and comments

Identifiers are runs of ASCII letters, digits and underscores.

A declarator ends with the name that it declares, so `splitTrailingIdentifier` cuts a text before its last
run; the two parts and the blanks between them make up the text again (`splitTrailingIdentifier_parts`).

Comments are skipped in front of a text only (`trimComments`): block comments one after the other, and a line
comment hides everything behind it. -/

namespace HeaderReflection.Text

/-! ### Identifiers -/

/-- ASCII letters, digits and the underscore. -/
def isIdentifierChar (c : Char) : Bool := isAsciiAlphanumeric c || c == '_'

/-- Characters that may begin an identifier. -/
def isIdentifierStart (c : Char) : Bool :=
  ('a' ≤ c && c ≤ 'z') || ('A' ≤ c && c ≤ 'Z') || c == '_'

/-- A non-empty run of identifier characters that does not begin with a digit. -/
def isIdentifier : List Char → Bool
  | [] => false
  | c :: s => isIdentifierStart c && s.all isIdentifierChar

/-- The text before the identifier run at its end, and that run. -/
def splitTrailingIdentifier (s : List Char) : List Char × List Char :=
  let r := (trimRight s).reverse
  (trim (r.dropWhile isIdentifierChar).reverse, (r.takeWhile isIdentifierChar).reverse)

/-! ### Comments -/

/-- The text behind the end of a block comment; nothing if the comment has no end. -/
def afterBlockComment : List Char → List Char
  | [] => []
  | '*' :: '/' :: s => s
  | _ :: s => afterBlockComment s

theorem length_afterBlockComment_le (s : List Char) : (afterBlockComment s).length ≤ s.length := by
  fun_induction afterBlockComment s with
  | case1 => simp
  | case2 s => simp only [List.length_cons]; omega
  | case3 _ s _ ih => simp only [List.length_cons]; omega

/-- Without the blanks and block comments in front; a line comment hides everything behind it. -/
def trimComments (s : List Char) : List Char :=
  match _h : trimLeft s with
  | '/' :: '/' :: _ => []
  | '/' :: '*' :: t => trimComments (afterBlockComment t)
  | t => t
termination_by s.length
decreasing_by
  have h₁ := length_afterBlockComment_le t
  have h₂ := length_trimLeft_le s
  simp only [_h, List.length_cons] at h₂
  omega

theorem isIdentifierChar_of_isIdentifierStart {c : Char} (h : isIdentifierStart c = true) :
    isIdentifierChar c = true := by
  simp only [isIdentifierStart, isIdentifierChar, isAsciiAlphanumeric, Bool.or_eq_true] at h ⊢
  grind

/-- The text is what stands before the identifier, the identifier, and the blanks behind it. -/
theorem splitTrailingIdentifier_parts (s : List Char) :
    ∃ b w, s = b ++ (splitTrailingIdentifier s).2 ++ w ∧ trim b = (splitTrailingIdentifier s).1 ∧
      ∀ c ∈ w, isBlank c = true := by
  obtain ⟨w, e, hw⟩ := exists_trimRight s
  refine ⟨((trimRight s).reverse.dropWhile isIdentifierChar).reverse, w, ?_, rfl, hw⟩
  have := congrArg List.reverse
    (List.takeWhile_append_dropWhile (p := isIdentifierChar) (l := (trimRight s).reverse))
  rw [List.reverse_append, List.reverse_reverse] at this
  simp only [splitTrailingIdentifier]
  rw [this, ← e]

end HeaderReflection.Text
