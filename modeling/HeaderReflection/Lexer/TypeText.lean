import HeaderReflection.Lexer.Basic
import HeaderReflection.Lexer.Bracket

/-! # Types

A type is a run without blanks outside brackets, behind qualifiers and before `const`, `*` and `&`:

    const std::map<int, T> const&

Each kind of bracket is counted by itself, and all counts are zero where the run ends. -/

namespace HeaderReflection.Lexer

open Text

/-- Words that may stand before a type. -/
def typeQualifiers : List (List Char) :=
  ["struct", "class", "enum", "union", "const"].map String.toList

/-- What may stand behind a type and belongs to it. -/
def typeTrailers : List (List Char) := ["const", "*", "&"].map String.toList

/-- Skips any number of `words`, each behind blanks, and the blanks behind the last one. -/
def skipWords (words : List (List Char)) (s : List Char) : List Char :=
  match words.findSome? (dropWord? · (trimLeft s)) with
  | some rest => if rest.length < s.length then skipWords words rest else trimLeft s
  | none => trimLeft s
termination_by s.length

/-- The text behind a balanced run that ends at a blank outside brackets.  Curly brackets are
characters like any other. -/
def typeRun (d : Depths) : List Char → Except Cause (List Char)
  | [] => if d.isZero then .ok [] else .error (.openBracket .typeText)
  | c :: s =>
    match (Bracket.ofOpener? c).filter (· ≠ .curly), (Bracket.ofCloser? c).filter (· ≠ .curly) with
    | some b, _ => typeRun (d.opened b) s
    | none, some b =>
      match d.closed? b with
      | some d => typeRun d s
      | none => .error (.strayBracket .typeText c)
    | none, none => if isBlank c && d.isZero then .ok (c :: s) else typeRun d s

/-- Takes a type. -/
def typeText : Lexer (List Char) := do
  trim
  let start ← get
  modify (skipWords typeQualifiers)
  match typeRun {} (← get) with
  | .ok rest =>
    set (skipWords typeTrailers rest)
    return Text.trim (taken start (← get))
  | .error e => throw e

end HeaderReflection.Lexer
