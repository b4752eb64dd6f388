import HeaderReflection.Proofs.Source.BodyMarkers
import HeaderReflection.Proofs.Source.Characters

/-! # How a header is laid out

The declarations of an accepted header lie in its text in the order in which they are listed
(`Reader.isLaidOut_read`).

* Whatever is declared has a line of its own, which is a line of the text.
* Classes begin one behind the other, and every class has exactly one body marker before the next class
  begins.
* The members of a class lie behind its body marker and in front of the next class, fields among themselves
  and methods among themselves in the order in which they are listed; so do the enumerators of an enum.
* A class without a base is a struct, abstract or a singleton, or it is not accepted (`Class.IsBased`).

Most of this is collected by the run over the lines and is only put into words here.  That there is exactly
one body marker takes both that each one that is read gives a class its body and that classes lie apart
(`Reader.readsMarker_body_iff`, `opensAt_between`). -/

namespace HeaderReflection

open Checked

/-! ### Layouts -/

/-- The lines of everything that a header declares: classes with their members, enums with theirs. -/
def Header.declaredLines (h : Header) : List Nat :=
  h.classes.flatMap (fun c => c.line :: (c.fields.map (·.line) ++ c.methods.map (·.line))) ++
    h.enums.flatMap fun e => e.line :: e.enumerators.map (·.line)

/-- The class is derived from another one, or else it is a struct, abstract or a singleton. -/
def Class.IsBased (c : Class) (isEnum : String → Bool) : Prop :=
  c.baseClass.isEmpty = false ∨ c.flags.has .struct = true ∨
    (c.bearer .classType c.path isEnum).bool .abstractClass = .ok true ∨
    (c.bearer .classType c.path isEnum).bool .singleton = .ok true

/-- The class lies before the next one, its members behind its body marker, which is the only one between
the two; `reads` says at which lines a body marker is read. -/
structure Class.IsLaidOut (c : Class) (next : Option Class) (reads : Nat → Prop) : Prop where
  body : c.line < c.bodyLine
  fields : (c.bodyLine :: c.fields.map (·.line)).Pairwise (· < ·)
  methods : (c.bodyLine :: c.methods.map (·.line)).Pairwise (· < ·)
  beforeNext : ∀ d ∈ next, c.EndsBefore d.line
  oneBody : ∀ n, c.line < n ∧ (∀ d ∈ next, n < d.line) ∧ reads n ↔ n = c.bodyLine

/-- The declarations of the header lie in the text in the order in which they are listed. -/
structure Header.IsLaidOut (h : Header) (r : Reader) (lines : List String) : Prop where
  distinct : h.declaredLines.Nodup
  inText : ∀ l ∈ h.declaredLines, 1 ≤ l ∧ l ≤ lines.length
  inOrder : (h.classes.map (·.line)).Pairwise (· < ·)
  classes : ∀ before c after, h.classes = before ++ c :: after →
    c.IsLaidOut after.head? fun n => r.ReadsMarker h.path lines n .body
  enums : ∀ e ∈ h.enums, (e.line :: e.enumerators.map (·.line)).Pairwise (· < ·)
  based : ∀ c ∈ h.classes, c.IsBased r.isEnum

/-! ### Classes one after the other -/

section Apart

variable {before after : List Class} {c : Class} {n : Nat}

theorem endsBefore_next (hapart : (before ++ c :: after).Pairwise fun c later => c.EndsBefore later.line) :
    ∀ d ∈ after.head?, c.EndsBefore d.line := by
  obtain ⟨-, hafter, -⟩ := List.pairwise_append.mp hapart
  exact fun d hd => (List.pairwise_cons.mp hafter).1 d (List.mem_of_mem_head? hd)

/-- Between a class and the next one lies the body marker of that class and of no other one. -/
theorem opensAt_between (hapart : (before ++ c :: after).Pairwise fun c later => c.EndsBefore later.line)
    (hbody : ∀ d ∈ before ++ c :: after, d.line < d.bodyLine) :
    c.line < n ∧ (∀ d ∈ after.head?, n < d.line) ∧ OpensAt (before ++ c :: after) n ↔ n = c.bodyLine := by
  have hc : c ∈ before ++ c :: after := List.mem_append_right _ List.mem_cons_self
  constructor
  · rintro ⟨hline, hnext, d, hd, rfl⟩
    obtain ⟨-, hafter, hbefore⟩ := List.pairwise_append.mp hapart
    rcases List.mem_append.mp hd with hd | hd
    · -- the classes before `c` have ended
      exact absurd (hbefore d hd c List.mem_cons_self).bodyLine (Nat.not_lt_of_lt hline)
    · rcases List.mem_cons.mp hd with rfl | hd
      · rfl
      · -- the classes behind `c` begin with the next one
        have hopen := hbody d (List.mem_append_right _ (List.mem_cons_of_mem c hd))
        cases after with
        | nil => exact absurd hd List.not_mem_nil
        | cons k ks =>
            have hbound := hnext k rfl
            rcases List.mem_cons.mp hd with rfl | hd
            · exact absurd hopen (Nat.not_lt_of_lt hbound)
            · have hlater := (List.pairwise_cons.mp (List.pairwise_cons.mp hafter).2).1 d hd
              exact absurd (Nat.lt_trans hlater.line hopen) (Nat.not_lt_of_lt hbound)
  · rintro rfl
    exact ⟨hbody c hc, fun d hd => (endsBefore_next hapart d hd).bodyLine, c, hc, rfl⟩

end Apart

namespace Reader

variable {r : Reader} {path : SourcePath} {lines : List String} {text : String} {h : Header}

/-! ### Class heads -/

/-- A class may go without constructors if it is a struct, abstract or a singleton. -/
theorem classFlags_noConstructors (b : Bearer) (isStruct : Bool) :
    Yields (classFlags b isStruct) fun flags => flags.has .noConstructors = true →
      flags.has .struct = true ∨ b.bool .abstractClass = .ok true ∨ b.bool .singleton = .ok true := by
  refine .bind (fun _ h => h) fun isAbstract habstract => ?_
  refine .bind (fun _ h => h) fun isSingleton hsingleton => ?_
  refine .bind (.any _) fun _ _ => .bind (.any _) fun _ _ => .bind (.any _) fun _ _ => .pure ?_
  intro hflag
  cases isStruct with
  | true =>
      left
      simp
  | false =>
      right
      have hmarked : isAbstract = true ∨ isSingleton = true := by simpa [FlagSet.ofList] using hflag
      rcases hmarked with rfl | rfl
      · exact .inl habstract
      · exact .inr hsingleton

theorem classOf_based (site : MarkerSite) (text : List Char) :
    Yields (r.classOf site text) (·.IsBased r.isEnum) := by
  refine .bind (.any _) fun head _ => .bind (fun _ h => h) fun b hb => ?_
  obtain ⟨_, _, hb⟩ := bind_eq_ok.mp hb
  obtain rfl := pure_eq_ok.mp hb
  refine .bind (classFlags_noConstructors _ head.isStruct) fun flags hflags => ?_
  refine .ite (fun _ => .throw_bind _) fun hbase => ?_
  refine .bind (.any _) fun _ _ => .bind (.any _) fun _ _ => .bind (.any _) fun _ _ => ?_
  refine .bind (.any _) fun _ _ => .bind (.any _) fun _ _ => ?_
  refine .bind (.any _) fun _ _ => .bind (.any _) fun _ _ => .pure ?_
  cases hempty : head.baseClass.isEmpty with
  | false => exact .inl hempty
  | true =>
      have hfree : flags.has .noConstructors = true := by simpa [hempty] using hbase
      exact .inr (hflags hfree)

theorem isBased_classInvariant : r.ClassInvariant path lines (·.IsBased r.isEnum) where
  declare := fun {site text c} _ hc => classOf_based site text c hc
  body := fun _ hc => hc
  field := fun _ hc _ => hc
  method := by
    intro site access text c d m _ hc _ hd
    obtain ⟨ps, rfl⟩ := claimProperties_yields c m d hd
    exact hc

/-! ### Whole headers -/

theorem declaredLines_eq (hr : r.read path text = .ok h) : h.declaredLines = h.ownLines := by
  have hclasses : h.classes.flatMap Class.ownLines =
      h.classes.flatMap fun c => c.line :: (c.fields.map (·.line) ++ c.methods.map (·.line)) :=
    List.flatMap_congr fun c hc => c.ownLines_of_declared (isDeclared_of_mem_read hr hc).methods
  unfold Header.declaredLines Header.ownLines
  rw [hclasses]
  rfl

theorem bodyLine_ne_zero (hr : r.read path text = .ok h) : ∀ c ∈ h.classes, c.bodyLine ≠ 0 := by
  obtain ⟨-, n, hreached⟩ := exists_reached_of_read hr
  obtain ⟨-, p, -, hfinish⟩ := read_eq_ok.mp hr
  have hothers := hreached.inOrder.closed
  obtain ⟨-, hlast, rfl⟩ := finish_eq_ok.mp hfinish
  intro c hc
  have hc : c ∈ p.classes := List.mem_reverse.mp hc
  simp only [Header.declarations, List.reverse_reverse] at hothers
  cases hp : p.classes with
  | nil => simp [hp] at hc
  | cons k ks =>
      rw [hp] at hc hlast hothers
      rcases List.mem_cons.mp hc with rfl | hc
      · exact hlast c rfl
      · exact hothers c hc

/-- A body marker is read at a line if and only if it is that of a class of the header. -/
theorem readsMarker_body_iff (hr : r.read path text = .ok h) {n : Nat} :
    r.ReadsMarker path (Text.lines text) n .body ↔ OpensAt h.classes n := by
  have hopen := bodyLine_ne_zero hr
  obtain ⟨-, p, hrun, hfinish⟩ := read_eq_ok.mp hr
  obtain ⟨hmode, -, rfl⟩ := finish_eq_ok.mp hfinish
  have hall : OpensAt p.classes.reverse n ↔ p.HasBody n := by
    refine Iff.trans ?_ (hasBody_iff_opensAt (hmode ▸ nofun)).symm
    simp [OpensAt]
  rw [← List.take_length (l := Text.lines text)] at hrun
  constructor
  · rintro ⟨q, line, name, behind, hq, hbetween, hline, hmarker⟩
    obtain ⟨hpos, hle⟩ := isSome_lineAt?_iff.mp (Option.isSome_of_eq_some hline)
    refine hall.mpr ((hasBody_iff (Nat.le_refl _) hrun (by omega)).mpr ⟨hle, ?_⟩)
    exact ⟨q, line, name, behind, hq, hbetween, hline, hmarker⟩
  · rintro ⟨c, hc, rfl⟩
    exact ((hasBody_iff (Nat.le_refl _) hrun (hopen c hc)).mp (hall.mp ⟨c, hc, rfl⟩)).2

/-- The declarations of an accepted header lie in its text in the order in which they are listed.  No two of
them have the same line, and each line is one of the text.  Between a class and the next one there is exactly
one body marker, behind which the members of the class lie in their order; enumerators lie behind their enum.
Every class has a base class, or is a struct, abstract or a singleton. -/
theorem isLaidOut_read (hr : r.read path text = .ok h) : h.IsLaidOut r (Text.lines text) := by
  obtain ⟨rfl, n, hreached⟩ := exists_reached_of_read hr
  have horder := hreached.inOrder
  have hapart : h.classes.Pairwise fun c later => c.EndsBefore later.line := List.pairwise_reverse.mp horder.apart
  have hclasses : ∀ c ∈ h.classes, c.InOrder := fun c hc => horder.classes c (List.mem_reverse.mpr hc)
  have hbody : ∀ c ∈ h.classes, c.line < c.bodyLine := fun c hc => (hclasses c hc).body (bodyLine_ne_zero hr c hc)
  refine ⟨?_, ?_, ?_, ?_, ?_, ?_⟩
  · rw [declaredLines_eq hr]
    exact nodup_ownLines hr
  · intro l hl
    rw [declaredLines_eq hr] at hl
    exact bounds_of_mem_ownLines hr hl
  · exact List.pairwise_map.mpr (hapart.imp fun hc => hc.line)
  · intro before c after hsplit
    have hc : c ∈ h.classes := hsplit ▸ List.mem_append_right _ List.mem_cons_self
    refine ⟨hbody c hc, (hclasses c hc).fields, (hclasses c hc).methods, ?_, fun n => ?_⟩
    · rw [hsplit] at hapart
      exact endsBefore_next hapart
    · rw [readsMarker_body_iff hr, hsplit]
      exact opensAt_between (hsplit ▸ hapart) (hsplit ▸ hbody)
  · exact fun e he => horder.enums e (List.mem_reverse.mpr he)
  · exact read_classes isBased_classInvariant hr

/-- A struct with two members and an abstract class, with an enum between them. -/
theorem isLaidOut_two_classes :
    ∃ text h, (Reader.ofSettings {}).read ⟨.relative, ["Unit.h"]⟩ text = .ok h ∧ h.classes.length = 2 ∧
      h.IsLaidOut (Reader.ofSettings {}) (Text.lines text) := by
  have hrun : ((Reader.ofSettings {}).read ⟨.relative, ["Unit.h"]⟩
      ("RClass()\nstruct Unit \x7b\nRBody();\nRField()\nint Hp;\nRMethod() void Die();\n\x7d;\n" ++
        "REnum() enum Color \x7b\nRed,\n\x7d;\nRClass(Abstract) class Node \x7b\nRBody();\n\x7d;")
      |>.toOption.any fun h => h.classes.length == 2) = true := by
    rw [read_ofList_append]
    decide +kernel
  obtain ⟨h, hread, hrun⟩ := Checked.exists_ok_of_any hrun
  exact ⟨_, h, hread, eq_of_beq hrun, isLaidOut_read hread⟩

end Reader

end HeaderReflection
