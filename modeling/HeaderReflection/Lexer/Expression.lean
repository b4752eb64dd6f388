import HeaderReflection.Lexer.Basic
import HeaderReflection.Lexer.Bracket
import HeaderReflection.Lexer.Literal

/-! # Expressions

An expression ends before a comma, a closing parenthesis or a semicolon outside brackets.  Literals
are skipped whole.  An angle bracket may be an operator: `<<` always is, `>>` is one unless it closes
two open angle brackets, and a lone `>` without an open one is ignored. -/

namespace HeaderReflection.Lexer

open Text

/-- Characters that end an expression outside brackets. -/
def endsExpression (c : Char) : Bool := c == ',' || c == ')' || c == ';'

/-- The text behind an expression. -/
def expressionRun (d : Depths) (s : List Char) : Except Cause (List Char) :=
  match s with
  | [] => if d.isZero then .ok [] else .error (.openBracket .expression)
  | c :: s =>
    if d.isZero && endsExpression c then .ok (c :: s)
    else if isQuote c then
      match h : skipLiteral? c s with
      | some rest =>
        have := (skipLiteral?_suffix h).2
        expressionRun d rest
      | none => .error .openLiteral
    else if c = '<' then
      match s with
      | '<' :: s => expressionRun d s
      | s => expressionRun (d.opened .angle) s
    else if c = '>' then
      match s, decide (d.angle < 2) with
      | '>' :: s, true => expressionRun d s
      | s, _ => expressionRun ((d.closed? .angle).getD d) s
    else
      match Bracket.ofOpener? c, Bracket.ofCloser? c with
      | some b, _ => expressionRun (d.opened b) s
      | none, some b =>
        match d.closed? b with
        | some d => expressionRun d s
        | none => .error (.strayBracket .expression c)
      | none, none => expressionRun d s
termination_by s.length
decreasing_by all_goals simp only [List.length_cons]; omega

/-- Takes an expression. -/
def expression : Lexer (List Char) := do
  trim
  let s ← get
  match expressionRun {} s with
  | .ok rest =>
    set rest
    return Text.trim (taken s rest)
  | .error e => throw e

end HeaderReflection.Lexer
