import HeaderReflection.Lexer.Expression
import HeaderReflection.Lexer.Group
import HeaderReflection.Lexer.TypeText

/-! # Steps of a lexer

The operations of a lexer as data, so that a sequence of them can be replayed on a text.  A step that
fails does not end the sequence. -/

namespace HeaderReflection.Lexer

/-- An operation. -/
inductive Step where
  | trim
  | peek
  | looking (literal : List Char)
  | advance (n : Int)
  | swallow (literal : List Char)
  | swallowWord (word : List Char)
  | expect (literal : List Char)
  | identifier
  | typeText
  | expression
  | balanced (b : Bracket)
  | upTo (stops : List Char)
  | rest
  | isNonblank
  deriving DecidableEq, Repr

/-- What an operation answers. -/
inductive Answer where
  | nothing
  | truth (b : Bool)
  | text (s : List Char)
  deriving DecidableEq, Repr

/-- Performs an operation. -/
def Step.perform : Step → Lexer Answer
  | .trim => do Lexer.trim; return .nothing
  | .peek => return .text (← Lexer.peek)
  | .looking l => return .truth (← Lexer.looking l)
  | .advance n => return .text (← Lexer.advance n)
  | .swallow l => return .truth (← Lexer.swallow l)
  | .swallowWord w => return .truth (← Lexer.swallowWord w)
  | .expect l => do Lexer.expect l; return .nothing
  | .identifier => return .text (← Lexer.identifier)
  | .typeText => return .text (← Lexer.typeText)
  | .expression => return .text (← Lexer.expression)
  | .balanced b => return .text (← Lexer.balanced b)
  | .upTo l => return .text (← Lexer.upTo l)
  | .rest => return .text (← Lexer.rest)
  | .isNonblank => return .truth (← Lexer.isNonblank)

/-- The answers of a sequence of operations, each with the text that it leaves. -/
def replay (s : List Char) : List Step → List (Except Cause Answer × List Char)
  | [] => []
  | p :: ps =>
    let a := p.perform.answer s
    a :: replay a.2 ps

end HeaderReflection.Lexer
