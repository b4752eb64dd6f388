import HeaderReflection.Declaration.Type

/-! # Synthesized methods

A synthesized method is public, has no line of its own, and is identified by the line of the declaration that
it was made from, by its role there and by its name.

What is different from method to method is a draft (`MethodDraft`): name, type, parameters, flags and body.
Everything else follows from the class and from what the method is made from (`Class.synthesize`).  Parameters
are read from their text as those of a declared method are. -/

namespace HeaderReflection

/-- What a synthesized method is like, apart from what it is made from. -/
structure MethodDraft where
  returnType : String
  name : String
  /-- The text of the parameter list. -/
  parameters : String := ""
  body : String
  /-- What the method does, for its documentation. -/
  comment : String
  flags : FlagSet MethodFlag := {}
  forceDocument : Option Bool := none
  deriving DecidableEq, Repr

namespace Class

/-- The method of a class that a draft describes. -/
def synthesize (c : Class) (s : Synthesis) (d : MethodDraft) : Method where
  name := d.name
  displayName := d.name
  comments := [d.comment]
  access := .everyone
  uid := Uid.compute c.path s.line [s.role, d.name]
  forceDocument := d.forceDocument
  returnType := d.returnType
  rawParameters := Text.trimmed d.parameters
  parameters := Parameter.ofList d.parameters.toList
  flags := (d.flags.insert .artificial).insertIf (!d.body.isEmpty) .hasBody
  synthesis := some s
  body := d.body

end Class

/-- A statement followed by the code that runs on a change, closed by a semicolon. -/
def withOnChange (statement onChange : String) : String :=
  if onChange.isEmpty then statement
  else
    let code := Text.trim onChange.toList
    let code := if code.getLast? == some ';' then code else code ++ [';']
    statement ++ " " ++ String.ofList code

/-- A text that begins with one that is not empty is not empty. -/
theorem isEmpty_append {s : String} (h : s.isEmpty = false) (t : String) : (s ++ t).isEmpty = false := by
  rw [String.isEmpty_eq_false_iff] at h ⊢
  exact fun e => h (String.append_eq_empty_iff.mp e).1

theorem isEmpty_withOnChange {statement : String} (h : statement.isEmpty = false) (onChange : String) :
    (withOnChange statement onChange).isEmpty = false := by
  unfold withOnChange
  split
  · exact h
  · exact isEmpty_append (isEmpty_append h _) _

end HeaderReflection
