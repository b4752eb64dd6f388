import HeaderReflection.Lexer.Basic
import HeaderReflection.Lexer.Bracket
import HeaderReflection.Lexer.Literal

/-! # Bracketed groups

A group is the text between a bracket and the one that closes it.  Brackets between quotes do not
count; a quote ends where the same quote follows a character other than a backslash. -/

namespace HeaderReflection.Lexer

/-- The inside of a group and the text behind it.  `level` counts the open brackets, `quote` is the
open quote if there is one, and `last` is the character read before. -/
def groupRun (b : Bracket) (level : Nat) (quote : Option Char) (last : Char) :
    List Char → Option (List Char × List Char)
  | [] => none
  | c :: s =>
    let onward (level : Nat) (quote : Option Char) :=
      (groupRun b level quote c s).map fun p => (c :: p.1, p.2)
    match quote with
    | some q => onward level (if c = q ∧ last ≠ '\\' then none else some q)
    | none =>
      if isQuote c then onward level (some c)
      else if c = b.opener then onward (level + 1) none
      else if c = b.closer then
        if level ≤ 1 then some ([], s) else onward (level - 1) none
      else onward level none

/-- Takes a group and answers its inside. -/
def balanced (b : Bracket) : Lexer (List Char) := do
  trim
  match ← get with
  | [] => missing b.opener.toString
  | c :: s =>
    if c ≠ b.opener then missing b.opener.toString
    match groupRun b 1 none c s with
    | some (inner, rest) =>
      set rest
      return inner
    | none => throw (.missingCloser b.closer)

/-- A group is its inside, its closing bracket and the text behind it. -/
theorem groupRun_eq_some {b : Bracket} {level : Nat} {quote : Option Char} {last : Char}
    {s inner rest : List Char} (h : groupRun b level quote last s = some (inner, rest)) :
    s = inner ++ b.closer :: rest := by
  induction s generalizing level quote last inner with
  | nil => simp [groupRun] at h
  | cons c s ih =>
      have onward : ∀ {level quote},
          (groupRun b level quote c s).map (fun p => (c :: p.1, p.2)) = some (inner, rest) →
          c :: s = inner ++ b.closer :: rest := by
        intro level quote e
        obtain ⟨⟨i, r⟩, hr, e⟩ := Option.map_eq_some_iff.mp e
        simp only [Prod.mk.injEq] at e
        obtain ⟨rfl, rfl⟩ := e
        simpa using ih hr
      simp only [groupRun] at h
      split at h
      · exact onward h
      · repeat' split at h
        all_goals first
          | exact onward h
          | (simp only [Option.some.injEq, Prod.mk.injEq] at h
             obtain ⟨rfl, rfl⟩ := h
             simp_all)

end HeaderReflection.Lexer
