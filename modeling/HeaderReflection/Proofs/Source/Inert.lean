import HeaderReflection.Proofs.Source.Characters
import HeaderReflection.Proofs.Source.LineNumbers
import HeaderReflection.Proofs.Source.Steps

/-! # Lines of no interest

Code without markers is not read.  A line is of no interest if it is neither a marker, nor an access label,
nor a documentation comment (`Reader.IsInert`).  Between two declarations such a line can be put into a header
or taken from it: either text is accepted if the other one is, and both declare the same, the line numbers
behind the line apart (`Reader.read_insert_inert`).

Nothing changes at the line itself (`Reader.readLine_inert`).  What is read of the lines behind it is read one
line further down, which changes the lines of declarations and the identifiers that belong to them.  In front
of it no comments may wait, since a line of no interest takes them away from the next declaration. -/

namespace HeaderReflection

open Checked Text

/-! ### Lines -/

namespace Reader

/-- No marker, access label or documentation comment stands at the beginning of the line, blanks apart. -/
structure IsInert (r : Reader) (line : String) : Prop where
  noMarker : r.markers.find? (trim line.toList) = none
  noEnumerator : ((r.markerName .enumerator).toList ++ ['(']).isPrefixOf (trim line.toList) = false
  noLabel : Access.ofLabelLine? (String.ofList (trim line.toList)) = none
  noComment : "///".toList.isPrefixOf (trim line.toList) = false

variable {r : Reader} {path : SourcePath} {p : Progress} {x : String}

theorem readLine_inert (hx : r.IsInert x) (hmode : p.mode = .between) (hcomments : p.comments = []) (n : Nat) :
    r.readLine p n (trim x.toList) = .ok p := by
  have hcomment : commentText? (trim x.toList) = none := by
    refine commentText?_eq_none fun s hs => ?_
    have hnone := hx.noComment
    rw [hs] at hnone
    exact absurd hnone (by simp)
  have hstep : r.LineStep p n (trim x.toList) _ := .plain hmode hx.noMarker hx.noEnumerator
  rw [hx.noLabel, hcomment] at hstep
  have hsame : ({ p with comments := [] } : Progress) = p := by rw [← hcomments]
  exact hstep.readLine_eq.trans (congrArg _ hsame)

/-! ### Texts -/

/-- Lines that stay where they are make everything that is read of them stay there. -/
theorem renumber_eq_of_runLines {ρ : Nat → Nat} (hzero : ∀ n, ρ n = 0 ↔ n = 0) {lines : List String}
    (hlines : ∀ i < lines.length, ρ (1 + i) = 1 + i) (h : r.runLines { path } 1 lines = .ok p) :
    p.OfOneFile ∧ p.renumber ρ = p := by
  obtain ⟨q, hq, hone, rfl⟩ := (runLines_renumber hzero (.start path) hlines).leads p h
  exact ⟨hone, Except.ok.inj (hq.symm.trans h)⟩

/-- A line of no interest between two declarations is ignored.  A text with the line is accepted if and only
if the text without it is, and then it declares the same, everything behind the line one line further down. -/
theorem read_insert_inert {s t : String} {before after : List String} (hthrough : r.ReadsThrough path before)
    (hx : r.IsInert x) (hs : Text.lines s = before ++ after) (ht : Text.lines t = before ++ x :: after) :
    (r.read path t).toOption = (r.read path s).toOption.map (·.renumber (lineBehind before.length 1)) := by
  obtain ⟨p, hrun, hmode, hcomments⟩ := hthrough
  have hzero := lineBehind_eq_zero_iff before.length 1
  obtain ⟨hone, hkept⟩ := renumber_eq_of_runLines hzero
    (fun i hi => lineBehind_of_le (by omega : 1 + i ≤ before.length)) hrun
  have hfrom : r.runLines { path } 1 (Text.lines s) = r.runLines p (1 + before.length) after := by
    rw [hs, runLines_append, hrun]
    rfl
  have hpast : r.runLines { path } 1 (Text.lines t) = r.runLines p (1 + before.length + 1) after := by
    rw [ht, runLines_append, hrun]
    change r.runLines p (1 + before.length) (x :: after) = _
    simp only [runLines, readLine_inert hx hmode hcomments]
    rfl
  have hafter : Alike (Progress.RenumberedTo (lineBehind before.length 1))
      (r.runLines p (1 + before.length) after) (r.runLines p (1 + before.length + 1) after) := by
    have hnew := runLines_renumber (r := r) hzero hone fun i (_ : i < after.length) =>
      (lineBehind_of_lt (by omega : before.length < 1 + before.length + i)).trans (Nat.add_right_comm _ i 1)
    rwa [hkept] at hnew
  refine Alike.toOption_eq (.bindSame (.refl _) fun _ => ?_)
  dsimp only
  rw [hfrom, hpast]
  refine hafter.bind ?_
  rintro q _ ⟨-, rfl⟩
  exact (finish_renumber hzero).placedAt _ _ _ _

/-- A line of code between the head of a class and its body marker. -/
theorem read_insert_inert_member :
    ∃ h, (Reader.ofSettings {}).read ⟨.relative, ["Unit.h"]⟩
        "RClass(Abstract)\nclass Unit \x7b\nRBody();\n\x7d;" = .ok h ∧
      (Reader.ofSettings {}).ReadsThrough ⟨.relative, ["Unit.h"]⟩ ["RClass(Abstract)", "class Unit \x7b"] ∧
      (Reader.ofSettings {}).IsInert "int Hp;" ∧
      (Reader.ofSettings {}).read ⟨.relative, ["Unit.h"]⟩
        "RClass(Abstract)\nclass Unit \x7b\nint Hp;\nRBody();\n\x7d;" = .ok (h.renumber (lineBehind 2 1)) := by
  have hthrough : (Reader.ofSettings {}).ReadsThrough ⟨.relative, ["Unit.h"]⟩
      ["RClass(Abstract)", "class Unit \x7b"] := by
    decide +kernel
  have hinert : (Reader.ofSettings {}).IsInert "int Hp;" := by
    constructor
    all_goals decide +kernel
  have hinsert := read_insert_inert (s := "RClass(Abstract)\nclass Unit \x7b\nRBody();\n\x7d;")
    (t := "RClass(Abstract)\nclass Unit \x7b\nint Hp;\nRBody();\n\x7d;") hthrough hinert
    (Text.lines_ofList _ : _ = _ ++ ["RBody();", "\x7d;"]) (Text.lines_ofList _)
  have hread : ((Reader.ofSettings {}).read ⟨.relative, ["Unit.h"]⟩
      "RClass(Abstract)\nclass Unit \x7b\nRBody();\n\x7d;").toOption.isSome = true := by
    rw [read_ofList]
    decide +kernel
  obtain ⟨h, hh⟩ := Option.isSome_iff_exists.mp hread
  rw [hh] at hinsert
  exact ⟨h, Checked.toOption_eq_some.mp hh, hthrough, hinert, Checked.toOption_eq_some.mp hinsert⟩

end Reader

end HeaderReflection
