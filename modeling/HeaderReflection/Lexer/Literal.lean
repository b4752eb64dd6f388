/-! # String and character literals

A literal ends at the quote that began it; a backslash keeps the character behind it from ending
the literal. -/

namespace HeaderReflection

/-- Characters that begin a literal. -/
def isQuote (c : Char) : Bool := c == '"' || c == '\''

/-- The text behind a literal whose opening quote `q` is read already. -/
def skipLiteral? (q : Char) : List Char → Option (List Char)
  | [] => none
  | ['\\'] => none
  | '\\' :: _ :: s => skipLiteral? q s
  | c :: s => if c = q then some s else skipLiteral? q s

theorem skipLiteral?_suffix {q : Char} {s r : List Char} (h : skipLiteral? q s = some r) :
    r <:+ s ∧ r.length < s.length := by
  fun_induction skipLiteral? q s with
  | case1 => simp at h
  | case2 => simp at h
  | case3 c s ih =>
      obtain ⟨hs, hl⟩ := ih h
      exact ⟨hs.trans ⟨['\\', c], rfl⟩, by simp only [List.length_cons]; omega⟩
  | case4 s _ _ =>
      cases h
      exact ⟨List.suffix_cons _ _, by simp⟩
  | case5 c s _ _ _ ih =>
      obtain ⟨hs, hl⟩ := ih h
      exact ⟨hs.trans (List.suffix_cons _ _), by simp only [List.length_cons]; omega⟩

end HeaderReflection
