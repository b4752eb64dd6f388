import HeaderReflection.Proofs.Derivation.Faults
import HeaderReflection.Proofs.Lexer.Comments
import HeaderReflection.Proofs.Source.Accepted
import HeaderReflection.Proofs.Source.Characters
import HeaderReflection.Proofs.Source.TrailingComments
import Mathlib.Data.List.Find
import Mathlib.Data.List.Nodup
import Mathlib.Tactic.SplitIfs

/-! # Types by their full types

A type answers to its simple name as well as to its full type, and nothing tells a global type from the simple
name of a type in a namespace.  Classes and enums are looked up in two different ways, so the consequences
differ.

* A name stands for a class only if exactly one class answers to it (`Program.findClass?_eq`).  Among classes
  with different full types, the full type of a class therefore stands for this class or, if it is the simple
  name of another one, for none (`Program.findClass?_fullType`).
* A name stands for the first enum that answers to it.  So the full type of an enum stands for the first enum
  of this simple name that comes before it, or else for the enum itself (`Program.findEnum?_fullType`).
* An anchor in front of the name of a class, the two colons of the global namespace, is taken away first, and
  blanks at the ends are too (`Program.anchored_colons`).  So a class is not found whose name ends with a
  blank, but no header declares one: the names of classes are words.

Both are put together in `Program.find_fullType`, with examples of types that are not found. -/

namespace HeaderReflection

open Checked

/-! ### Names -/

/-- The text has a last character, which is not blank. -/
def Text.EndsVisibly (s : List Char) : Prop := ∃ t c, s = t ++ [c] ∧ Text.isBlank c = false

theorem Program.anchored_colons {t : String} (ht : Text.EndsVisibly t.toList) :
    Program.anchored ("::" ++ t) = t := by
  obtain ⟨u, c, hu, hc⟩ := ht
  have htrim : Text.trim ("::" ++ t).toList = ':' :: ':' :: t.toList := by
    rw [String.toList_append, hu]
    exact Text.trimRight_append_cons hc (':' :: ':' :: u) []
  unfold Program.anchored
  rw [htrim]
  exact String.ofList_toList

namespace TypeDeclaration

variable {t : TypeDeclaration} {name : String}

theorem isNamed_iff : t.isNamed name = true ↔ t.name = name ∨ t.fullType = name := by
  simp [isNamed]

end TypeDeclaration

theorem ClassHead.read_yields : ClassHead.read.Yields fun head => Lexer.IsWord head.name.toList := by
  refine .bind (.any _) fun isStruct _ => ?_
  extract_lets behindKeyword
  have hbehind : (behindKeyword ()).Yields fun head => Lexer.IsWord head.name.toList := by
    refine .bind (.any _) fun _ _ => .bind (Lexer.takes_identifier.yields fun _ _ h => h.1) fun name hname => ?_
    have hname : Lexer.IsWord (String.ofList name).toList := by rwa [String.toList_ofList]
    refine .bind (.any _) fun _ _ => .bind (.any _) fun _ _ => ?_
    extract_lets behindBases
    have hbases : ∀ b, (behindBases b).Yields fun head => Lexer.IsWord head.name.toList :=
      fun b => .bind (.any _) fun _ _ => .pure hname
    refine .ite (fun _ => .bind (.any _) fun _ _ => ?_) fun _ => .bind (.any _) fun b _ => hbases b
    split
    · exact .bind (.any _) fun b _ => hbases b
    · exact .throw_bind _
  refine .ite (fun _ => hbehind) fun _ => .bind (.any _) fun _ _ => .ite (fun _ => hbehind) fun _ => ?_
  exact .bind (.any _) fun _ _ => hbehind

namespace Reader

variable {r : Reader} {path : SourcePath} {text : String} {h : Header}

theorem classOf_isWord (site : MarkerSite) (text : List Char) :
    Yields (r.classOf site text) fun c => Lexer.IsWord c.name.toList := by
  refine .bind (.lift fun head hhead => ClassHead.read_yields.of_eval hhead) fun head hname => ?_
  refine .bind (.any _) fun _ _ => .bind (.any _) fun _ _ => .ite (fun _ => .throw_bind _) fun _ => ?_
  refine .bind (.any _) fun _ _ => .bind (.any _) fun _ _ => .bind (.any _) fun _ _ => ?_
  refine .bind (.any _) fun _ _ => .bind (.any _) fun _ _ => ?_
  exact .bind (.any _) fun _ _ => .bind (.any _) fun _ _ => .pure hname

theorem isWord_of_mem_classes (hr : r.read path text = .ok h) {c : Class} (hc : c ∈ h.classes) :
    Lexer.IsWord c.name.toList := by
  refine read_classes (P := fun c => Lexer.IsWord c.name.toList) ⟨?_, ?_, ?_, ?_⟩ hr c hc
  · exact fun _ hc => classOf_isWord _ _ _ hc
  · exact fun _ hc => hc
  · exact fun _ hc _ => hc
  · intro site access text c d m _ hc _ hd
    obtain ⟨ps, rfl⟩ := claimProperties_yields c m d hd
    exact hc

end Reader

/-! ### Look-up -/

namespace Program

variable {p : Program}

theorem findClass?_eq (p : Program) (name : String) :
    p.findClass? name =
      if (anchored name).isEmpty then none
      else match p.classesNamed (anchored name) with
        | [c] => some c
        | _ => none := by
  have hclasses : p.classesNamed (anchored name) =
      (p.classes.zipIdx.filter (·.1.isNamed (anchored name))).map (·.1) := by
    have hmap := List.filter_map (f := Prod.fst) (p := fun c : Class => c.isNamed (anchored name))
      (l := p.classes.zipIdx)
    rw [List.zipIdx_map_fst] at hmap
    exact hmap
  have hpositions : ∀ q ∈ p.classes.zipIdx.filter (·.1.isNamed (anchored name)), p.classes[q.2]? = some q.1 :=
    fun q hq => List.mem_zipIdx_iff_getElem?.mp (List.mem_filter.mp hq).1
  unfold findClass? position? positionsNamed
  rw [hclasses]
  dsimp only
  split
  · rfl
  · generalize p.classes.zipIdx.filter (·.1.isNamed (anchored name)) = named at hpositions ⊢
    match named, hpositions with
    | [], _ => rfl
    | [q], h => exact h q List.mem_cons_self
    | _ :: _ :: _, _ => rfl

theorem classesNamed_eq_singleton (hnodup : p.classes.Nodup) {c : Class} (hc : c ∈ p.classes) {name : String}
    (hname : c.isNamed name = true) (hothers : ∀ d ∈ p.classes, d.isNamed name = true → d = c) :
    p.classesNamed name = [c] := by
  have hfilter : p.classesNamed name = p.classes.filter (· == c) := by
    refine List.filter_congr fun d hd => ?_
    rw [Bool.eq_iff_iff, beq_iff_eq]
    exact ⟨hothers d hd, fun h => h ▸ hname⟩
  rw [hfilter, List.filter_beq, List.count_eq_one_of_mem hnodup hc]
  rfl

/-- The full type of a class stands for the class, unless it is the simple name of another one. -/
theorem findClass?_fullType (hclasses : (p.classes.map (·.fullType)).Nodup) {c : Class} (hc : c ∈ p.classes)
    (hvisible : Text.EndsVisibly c.fullType.toList) :
    p.findClass? ("::" ++ c.fullType) =
      if ∃ d ∈ p.classes, d ≠ c ∧ d.name = c.fullType then none else some c := by
  have hself : c.isNamed c.fullType = true := TypeDeclaration.isNamed_iff.mpr (.inr rfl)
  have hnonempty : c.fullType.isEmpty = false := by
    obtain ⟨t, x, ht, -⟩ := hvisible
    simp [← String.toList_eq_nil_iff, ht]
  rw [findClass?_eq, anchored_colons hvisible, if_neg (by simp [hnonempty])]
  split_ifs with hother
  · obtain ⟨d, hd, hne, hname⟩ := hother
    have hmem : d ∈ p.classesNamed c.fullType :=
      List.mem_filter.mpr ⟨hd, TypeDeclaration.isNamed_iff.mpr (.inl hname)⟩
    have hmem' : c ∈ p.classesNamed c.fullType := List.mem_filter.mpr ⟨hc, hself⟩
    split
    · rename_i x hsingle
      rw [hsingle, List.mem_singleton] at hmem hmem'
      exact absurd (hmem.trans hmem'.symm) hne
    · rfl
  · rw [classesNamed_eq_singleton (hclasses.of_map _) hc hself]
    intro d hd hnamed
    rcases TypeDeclaration.isNamed_iff.mp hnamed with hname | hfull
    · exact not_not.mp fun hne => hother ⟨d, hd, hne, hname⟩
    · exact List.inj_on_of_nodup_map hclasses hd hc hfull

/-- The full type of an enum stands for the first enum before it of which it is the simple name, or else for the
enum itself. -/
theorem findEnum?_fullType (henums : (p.enums.map (·.fullType)).Nodup) {before behind : List Enumeration}
    {e : Enumeration} (he : p.enums = before ++ e :: behind) :
    p.findEnum? e.fullType = some ((before.find? (·.name == e.fullType)).getD e) := by
  have hself : e.isNamed e.fullType = true := TypeDeclaration.isNamed_iff.mpr (.inr rfl)
  have hbefore : before.find? (·.isNamed e.fullType) = before.find? (·.name == e.fullType) := by
    refine List.find?_congr fun d hd => ?_
    have hne : d.fullType ≠ e.fullType := by
      rw [he, List.map_append, List.map_cons] at henums
      exact fun h => (List.nodup_append.mp henums).2.2 _ (List.mem_map_of_mem hd) _ List.mem_cons_self h
    simp [TypeDeclaration.isNamed, hne]
  unfold findEnum?
  rw [he, List.find?_append, hbefore, List.find?_cons, hself]
  cases before.find? (·.name == e.fullType) <;> rfl

/-! ### Types that are found -/

/-- Look-up by full types.  Let the classes of a program have different full types, and so the enums.  Then the
full type of a class, which does not end with a blank, stands behind an anchor for this class, unless it is the
simple name of another class: then it stands for none.  The full type of an enum stands for the enum, unless it
is the simple name of an enum before it: then it stands for the first such enum.  Simple names are no obstacle
otherwise, whatever the namespaces and whatever the order of the headers. -/
theorem find_fullType (hclasses : (p.classes.map (·.fullType)).Nodup) (henums : (p.enums.map (·.fullType)).Nodup) :
    (∀ c ∈ p.classes, Text.EndsVisibly c.fullType.toList →
      p.findClass? ("::" ++ c.fullType) =
        if ∃ d ∈ p.classes, d ≠ c ∧ d.name = c.fullType then none else some c) ∧
      ∀ before e behind, p.enums = before ++ e :: behind →
        p.findEnum? e.fullType = some ((before.find? (·.name == e.fullType)).getD e) :=
  ⟨fun _ hc hvisible => findClass?_fullType hclasses hc hvisible, fun _ _ _ he => findEnum?_fullType henums he⟩

/-- The full types of a class and an enum in a namespace, whose simple names are also those of others. -/
theorem find_fullType_namespaces :
    ∃ h c e,
      (Reader.ofSettings {}).read ⟨.relative, ["Unit.h"]⟩
          ("RClass(Namespace = Game)\nstruct Unit \x7b\nRBody();\n\x7d;\n" ++
            "RClass(Namespace = Core)\nstruct Unit \x7b\nRBody();\n\x7d;\n" ++
            "REnum()\nenum Color \x7b\nRed\n\x7d;\nREnum(Namespace = Core)\nenum Color \x7b\nRed\n\x7d;") = .ok h ∧
        c.fullType = "Game::Unit" ∧ (⟨[h]⟩ : Program).findClass? "::Game::Unit" = some c ∧
        e.fullType = "Core::Color" ∧ (⟨[h]⟩ : Program).findEnum? "Core::Color" = some e := by
  have hrun : ((Reader.ofSettings {}).read ⟨.relative, ["Unit.h"]⟩
      ("RClass(Namespace = Game)\nstruct Unit \x7b\nRBody();\n\x7d;\n" ++
        "RClass(Namespace = Core)\nstruct Unit \x7b\nRBody();\n\x7d;\n" ++
        "REnum()\nenum Color \x7b\nRed\n\x7d;\nREnum(Namespace = Core)\nenum Color \x7b\nRed\n\x7d;")).toOption.any
      (fun h =>
        h.classes.map (fun c => (c.name, c.fullType)) == [("Unit", "Game::Unit"), ("Unit", "Core::Unit")] &&
          h.enums.map (fun e => (e.name, e.fullType)) == [("Color", "Color"), ("Color", "Core::Color")]) =
      true := by
    rw [Reader.read_toList]
    simp only [String.toList_append]
    repeat rw [String.toList_ofList]
    decide +kernel
  obtain ⟨h, hread, hnames⟩ := Checked.exists_ok_of_any hrun
  obtain ⟨hclasses, henums⟩ := Bool.and_eq_true_iff.mp hnames
  have hnodup : (h.classes.map (·.fullType)).Nodup ∧ (h.enums.map (·.fullType)).Nodup := by
    have hclasses := congrArg (List.map Prod.snd) (beq_iff_eq.mp hclasses)
    have henums := congrArg (List.map Prod.snd) (beq_iff_eq.mp henums)
    rw [List.map_map] at hclasses henums
    exact ⟨(congrArg List.Nodup hclasses).mpr (by decide), (congrArg List.Nodup henums).mpr (by decide)⟩
  obtain ⟨c, _, hc, hcname, hrest⟩ := List.map_eq_cons_iff.mp (beq_iff_eq.mp hclasses)
  obtain ⟨d, _, rfl, hdname, hrest⟩ := List.map_eq_cons_iff.mp hrest
  obtain rfl := List.map_eq_nil_iff.mp hrest
  obtain ⟨e, _, he, hename, hrest⟩ := List.map_eq_cons_iff.mp (beq_iff_eq.mp henums)
  obtain ⟨f, _, rfl, hfname, hrest⟩ := List.map_eq_cons_iff.mp hrest
  obtain rfl := List.map_eq_nil_iff.mp hrest
  obtain ⟨hcname, hcfull⟩ := Prod.mk.inj hcname
  obtain ⟨hdname, -⟩ := Prod.mk.inj hdname
  obtain ⟨hename, -⟩ := Prod.mk.inj hename
  obtain ⟨-, hffull⟩ := Prod.mk.inj hfname
  have hall : (⟨[h]⟩ : Program).classes = [c, d] := by simp [Program.classes, hc]
  have hall' : (⟨[h]⟩ : Program).enums = [e] ++ f :: [] := by simp [Program.enums, he]
  have hfind := find_fullType (p := ⟨[h]⟩) (hall.trans hc.symm ▸ hnodup.1) (hall'.trans he.symm ▸ hnodup.2)
  have hclass := hfind.1 c (by simp [hall]) ⟨"Game::Uni".toList, 't', by rw [hcfull]; decide, by decide⟩
  have henum := hfind.2 [e] f [] hall'
  refine ⟨h, c, f, hread, hcfull, ?_, hffull, ?_⟩
  · rw [hcfull] at hclass
    exact hclass.trans (if_neg (by simp [hall, hcname, hdname]))
  · rw [hffull] at henum
    exact henum.trans (by simp [hename])

/-- A global class is not found if a class in a namespace has its name, and for a global enum the one in the
namespace is found, which comes first.  A class of which the name ends with a blank is not found either. -/
theorem find_fullType_global :
    (∃ h : Header,
      (Reader.ofSettings {}).read ⟨.relative, ["Unit.h"]⟩
          ("RClass()\nstruct Unit \x7b\nRBody();\n\x7d;\n" ++
            "RClass(Namespace = Game)\nstruct Unit \x7b\nRBody();\n\x7d;\n" ++
            "REnum(Namespace = Game)\nenum Color \x7b\nRed\n\x7d;\nREnum()\nenum Color \x7b\nRed\n\x7d;") = .ok h ∧
        h.classes.map (·.fullType) = ["Unit", "Game::Unit"] ∧ h.enums.map (·.fullType) = ["Game::Color", "Color"] ∧
        (⟨[h]⟩ : Program).findClass? "::Unit" = none ∧
        ((⟨[h]⟩ : Program).findEnum? "Color").map (·.fullType) = some "Game::Color") ∧
      ((⟨[⟨{}, [{ name := "Unit " }], []⟩]⟩ : Program).findClass? "::Unit ") = none := by
  refine ⟨?_, by decide +kernel⟩
  have hrun : ((Reader.ofSettings {}).read ⟨.relative, ["Unit.h"]⟩
      ("RClass()\nstruct Unit \x7b\nRBody();\n\x7d;\n" ++
        "RClass(Namespace = Game)\nstruct Unit \x7b\nRBody();\n\x7d;\n" ++
        "REnum(Namespace = Game)\nenum Color \x7b\nRed\n\x7d;\nREnum()\nenum Color \x7b\nRed\n\x7d;")).toOption.any
      (fun h => decide (h.classes.map (·.fullType) = ["Unit", "Game::Unit"] ∧
        h.enums.map (·.fullType) = ["Game::Color", "Color"] ∧ (⟨[h]⟩ : Program).findClass? "::Unit" = none ∧
        ((⟨[h]⟩ : Program).findEnum? "Color").map (·.fullType) = some "Game::Color")) = true := by
    rw [Reader.read_toList]
    simp only [String.toList_append]
    repeat rw [String.toList_ofList]
    decide +kernel
  obtain ⟨h, hread, hfound⟩ := Checked.exists_ok_of_any hrun
  exact ⟨h, hread, of_decide_eq_true hfound⟩

end Program

end HeaderReflection
