import HeaderReflection.Proofs.Source.Declared
import HeaderReflection.Proofs.Source.Made
import Mathlib.Data.List.Nodup

/-! # The lines of declarations

Every declaration of a header has the line of its marker, or its own line in the body of an enum, and no two
of them have the same line (`Reader.nodup_ownLines`).

* The lines of a class are its own and those of its fields and its declared methods; a method that is made has
  none (`Method.ownLine?`).  Properties have none either.
* A change at a line adds this line to the lines of what has been read, or adds nothing
  (`DeclarationStep.ownLines`).  This is said up to the order, which is that of the kinds and not of the
  lines.
* Changes are made at increasing lines, so the new line is none of the others.

That lines are different is what makes identifiers different: a declaration of a header is identified by its
path and its line alone. -/

namespace HeaderReflection

open Checked

/-! ### Lines of classes and enums -/

/-- The line of a method, unless it was made from another declaration. -/
def Method.ownLine? (m : Method) : Option Nat := if m.synthesis.isNone then some m.line else none

/-- The lines of a class and of the members that it declares. -/
def Class.ownLines (c : Class) : List Nat :=
  c.line :: (c.fields.map (·.line) ++ c.methods.filterMap Method.ownLine?)

/-- The lines of an enum and of its enumerators. -/
def Enumeration.ownLines (e : Enumeration) : List Nat := e.line :: e.enumerators.map (·.line)

/-- The lines of everything that has been declared. -/
def Declarations.ownLines (d : Declarations) : List Nat :=
  d.classes.flatMap Class.ownLines ++ d.enums.flatMap Enumeration.ownLines

/-- The lines of everything that a header declares. -/
def Header.ownLines (h : Header) : List Nat :=
  h.classes.flatMap Class.ownLines ++ h.enums.flatMap Enumeration.ownLines

theorem Header.ownLines_perm (h : Header) : h.ownLines.Perm h.declarations.ownLines :=
  .append (.flatMap_right _ (List.reverse_perm _).symm) (.flatMap_right _ (List.reverse_perm _).symm)

theorem Method.IsDeclared.ownLine? {m : Method} (h : m.IsDeclared) : m.ownLine? = some m.line := by
  unfold Method.ownLine?
  rw [h.notMade]
  rfl

namespace Class

variable (c : Class)

theorem ownLines_concat_field (f : Field) :
    ({ c with fields := c.fields ++ [f] } : Class).ownLines.Perm (f.line :: c.ownLines) := by
  unfold ownLines
  dsimp only
  rw [List.map_append, List.append_assoc]
  exact .trans (.cons _ List.perm_middle) (.swap _ _ _)

theorem ownLines_concat_method {m : Method} (hm : m.ownLine? = some m.line) :
    ({ c with methods := c.methods ++ [m] } : Class).ownLines.Perm (m.line :: c.ownLines) := by
  unfold ownLines
  dsimp only
  rw [List.filterMap_append, List.filterMap_cons, hm, ← List.append_assoc]
  exact .trans (.cons _ (List.perm_append_singleton _ _)) (.swap _ _ _)

theorem ownLines_of_declared (h : ∀ m ∈ c.methods, m.IsDeclared) :
    c.ownLines = c.line :: (c.fields.map (·.line) ++ c.methods.map (·.line)) := by
  have hmethods : c.methods.filterMap Method.ownLine? = c.methods.map (·.line) := by
    rw [← List.filterMap_eq_map]
    exact List.filterMap_congr fun m hm => (h m hm).ownLine?
  unfold ownLines
  rw [hmethods]

end Class

theorem Enumeration.ownLines_concat (e : Enumeration) (x : Enumerator) :
    ({ e with enumerators := e.enumerators ++ [x] } : Enumeration).ownLines.Perm (x.line :: e.ownLines) := by
  unfold ownLines
  dsimp only
  rw [List.map_append]
  exact .trans (.cons _ (List.perm_append_singleton _ _)) (.swap _ _ _)

namespace Declarations

variable (c : Class) (cs : List Class) (e : Enumeration) (es : List Enumeration)

theorem ownLines_class {d : Class} {line : Nat} (h : d.ownLines.Perm (line :: c.ownLines)) :
    (⟨d :: cs, es⟩ : Declarations).ownLines.Perm (line :: (⟨c :: cs, es⟩ : Declarations).ownLines) :=
  (h.append_right _).append_right _

theorem ownLines_enum {d : Enumeration} {line : Nat} (h : d.ownLines.Perm (line :: e.ownLines)) :
    (⟨cs, d :: es⟩ : Declarations).ownLines.Perm (line :: (⟨cs, e :: es⟩ : Declarations).ownLines) :=
  .trans ((h.append_right _).append_left _) List.perm_middle

end Declarations

/-! ### Changes -/

namespace Reader

variable {r : Reader} {site : MarkerSite}

/-- A class that is made of its head has only the line of its marker. -/
theorem MakesClass.ownLines {head : ClassHead} {c : Class} (h : r.MakesClass site head c) :
    c.ownLines = [site.line] := by
  unfold Class.ownLines
  rw [h.made.line, h.fields, h.methods]
  rfl

/-- So has an enum. -/
theorem MakesEnum.ownLines {head : EnumHead} {e : Enumeration} (h : r.MakesEnum site head e) :
    e.ownLines = [site.line] := by
  unfold Enumeration.ownLines
  rw [h.made.line, h.enumerators]
  rfl

end Reader

namespace DeclarationStep

variable {r : Reader} {path : SourcePath} {lines : List String} {line : Nat} {d e : Declarations}

/-- A change at a line declares one thing at that line, or nothing. -/
theorem ownLines (h : DeclarationStep r path lines line d e) :
    e.ownLines.Perm (line :: d.ownLines) ∨ e.ownLines = d.ownLines := by
  cases h with
  | @classType site text c cs es _ hc =>
      obtain ⟨head, -, hmakes⟩ := Reader.classOf_makes site text c hc
      left
      unfold Declarations.ownLines
      dsimp only
      rw [List.flatMap_cons, hmakes.ownLines]
      rfl
  | body cs es line _ => exact .inr rfl
  | @field site access text c f cs es _ _ hf =>
      obtain ⟨t, -, hmade⟩ := Reader.fieldOf_makes site c access text f hf
      exact .inl (hmade.line ▸ Declarations.ownLines_class c cs es (c.ownLines_concat_field f))
  | @method site access text c d m cs es _ _ hm hd =>
      obtain ⟨t, -, hmade⟩ := Reader.methodOf_makes site c access text m hm
      have hdeclared := Reader.methodOf_isDeclared site c access text m hm
      obtain ⟨ps, rfl⟩ := Reader.claimProperties_yields c m d hd
      refine .inl (hmade.line ▸ Declarations.ownLines_class c cs es ?_)
      exact Class.ownLines_concat_method { c with properties := ps } hdeclared.ownLine?
  | @enumType site text rest head e cs es _ _ he =>
      have hmakes := Reader.enumOf_makes site head e he
      left
      unfold Declarations.ownLines
      dsimp only
      rw [List.flatMap_cons, hmakes.ownLines]
      exact List.perm_middle
  | @enumerator body text x cs es line _ _ hx =>
      obtain ⟨t, -, -, hmade⟩ := Reader.enumeratorOf_makes body line text x hx
      have hconcat := body.declared.ownLines_concat x
      rw [hmade.line] at hconcat
      exact .inl (Declarations.ownLines_enum cs body.declared es hconcat)

end DeclarationStep

namespace Reader

variable {r : Reader} {path : SourcePath} {lines : List String}

theorem nodup_ownLines_of_reached {n : Nat} {d : Declarations} (h : d.Reached r path lines n) :
    d.ownLines.Nodup ∧ ∀ l ∈ d.ownLines, l < n := by
  induction h with
  | start => exact ⟨List.nodup_nil, fun l hl => absurd hl List.not_mem_nil⟩
  | @step n line d e _ hline hstep ih =>
      obtain ⟨hnodup, hbelow⟩ := ih
      rcases hstep.ownLines with hperm | hsame
      · have hfresh : line ∉ d.ownLines := fun hmem => Nat.not_lt.mpr hline (hbelow line hmem)
        refine ⟨hperm.nodup_iff.mpr (List.nodup_cons.mpr ⟨hfresh, hnodup⟩), fun l hl => ?_⟩
        rcases List.mem_cons.mp (hperm.mem_iff.mp hl) with rfl | hl
        · exact Nat.lt_succ_self l
        · exact Nat.lt_succ_of_lt (Nat.lt_of_lt_of_le (hbelow l hl) hline)
      · rw [hsame]
        exact ⟨hnodup, fun l hl => Nat.lt_succ_of_lt (Nat.lt_of_lt_of_le (hbelow l hl) hline)⟩

/-- No two declarations of a header have the same line. -/
theorem nodup_ownLines {text : String} {h : Header} (hr : r.read path text = .ok h) : h.ownLines.Nodup := by
  obtain ⟨-, n, hreached⟩ := exists_reached_of_read hr
  exact h.ownLines_perm.nodup_iff.mpr (nodup_ownLines_of_reached hreached).1

end Reader

end HeaderReflection
