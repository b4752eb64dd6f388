import HeaderReflection.Proofs.Attribute.NativeText
import HeaderReflection.Proofs.Source.Characters
import HeaderReflection.Proofs.Source.FieldMarkers
import HeaderReflection.Proofs.Source.FlagOrder
import HeaderReflection.Proofs.Source.Inert
import HeaderReflection.Proofs.Source.Origins
import HeaderReflection.Proofs.Source.RenderedFields
import HeaderReflection.Proofs.Source.TrailingComments
import HeaderReflection.Proofs.Text.Lines

/-! # Fields that are written back

A field of a header can be written out on the line below its marker, in place of its declaration.  The text is
a header again, with the same declarations as before, and the field is written out alike
(`Reader.read_rendered_field`).

* The line of the marker is cut behind its list, and the marker is found there as before
  (`Reader.FindsField.undeclared`).  If the declaration stood on the line of the marker, the lines behind it
  move down by one; if it stood below, it is replaced there (`Reader.redeclared`).
* What is declared instead joins the class as the field did (`Reader.ReadsField.runLines_redeclared`).
* The lines behind are read to the same, at the lines to which they have moved
  (`Reader.ReadsField.read_redeclared`).

The new text is put together from lines, and these are its lines since none of them holds a line end
(`Reader.ReadsField.not_isLineEnd`).  Words in front of the type may come in another order, so the flags of
the field are the same without being raised in the same order. -/

namespace HeaderReflection

open Checked Text

/-! ### Ends of texts -/

namespace Text

theorem afterBlockComment_suffix (s : List Char) : afterBlockComment s <:+ s := by
  fun_induction afterBlockComment s with
  | case1 => exact List.suffix_refl _
  | case2 s => exact ⟨['*', '/'], rfl⟩
  | case3 c s _ ih => exact ih.trans (List.suffix_cons c s)

theorem trimComments_suffix (s : List Char) : trimComments s <:+ s := by
  fun_induction trimComments s with
  | case1 s t hs => exact List.nil_suffix
  | case2 s t hs ih =>
      have hbehind : t <:+ trimLeft s := ⟨['/', '*'], hs.symm⟩
      exact ih.trans ((afterBlockComment_suffix t).trans (hbehind.trans (trimLeft_suffix s)))
  | case3 s _ _ => exact trimLeft_suffix s

end Text

theorem Reader.declarationText_suffix (rest : List Char) : Reader.declarationText rest <:+ rest := by
  unfold declarationText
  split
  · rename_i s hs
    have hbehind : s <:+ trimLeft rest := ⟨[';'], hs.symm⟩
    exact (trimComments_suffix s).trans (hbehind.trans (trimLeft_suffix rest))
  · exact (trimComments_suffix _).trans (trimLeft_suffix rest)

/-! ### The marker without what follows it -/

/-- What follows an attribute list is not read for it. -/
theorem Lexer.attributeList_closes {s rest : List Char} {list : Bag} (h : attributeList.split s = .ok (list, rest)) :
    ∃ u, s = u ++ ')' :: rest ∧ ∀ t, attributeList.split (u ++ ')' :: t) = .ok (list, t) := by
  obtain ⟨inside, r, hbalanced, hlist⟩ := bind_answer_eq_ok.mp (split_eq_ok.mp h)
  obtain ⟨_, rfl, u, hu, hinside, rfl⟩ := takes_balanced .round s inside r hbalanced
  split at hlist
  · cases hlist
  · rename_i bag hbag
    split at hlist
    · rename_i hsettable
      cases hlist
      refine ⟨u ++ '(' :: inside, by simp [Bracket.opener, Bracket.closer], fun t => ?_⟩
      have hgroup : (balanced .round).answer (u ++ '(' :: inside ++ ')' :: t) = (.ok inside, t) := by
        rw [answer_balanced, List.append_assoc, trimLeft_blank_append hu, ← answer_balanced]
        exact hinside.answer_balanced t
      refine split_eq_ok.mpr (bind_answer_eq_ok.mpr ⟨inside, t, hgroup, ?_⟩)
      simp only [hbag, hsettable]
      rfl
    · cases hlist

theorem MarkerTable.find?_of_append {table : MarkerTable} {line v rest : List Char} {name : String} {kind : MarkerKind}
    (h : table.find? line = some (name, kind, v ++ rest)) (hv : v ≠ []) :
    ∃ u, line = u ++ rest ∧ v <:+ u ∧ table.find? u = some (name, kind, v) := by
  unfold find? at h ⊢
  induction table with
  | nil => cases h
  | cons m table ih =>
      rw [List.findSome?_cons] at h
      cases hm : behind? m.1 line with
      | some behind =>
          rw [hm] at h
          cases h
          obtain ⟨⟨s, hs⟩, w, hw, rfl⟩ := behind?_eq_some.mp hm
          obtain ⟨c, v, rfl⟩ := List.exists_cons_of_ne_nil hv
          obtain ⟨rfl, -⟩ := List.cons.inj hs
          refine ⟨m.1.toList ++ w ++ '(' :: v, by simp, List.suffix_append _ _, ?_⟩
          rw [List.findSome?_cons, behind?_eq_some.mpr ⟨⟨v, rfl⟩, w, hw, rfl⟩]
          rfl
      | none =>
          rw [hm] at h
          obtain ⟨u, rfl, hsuffix, hfind⟩ := ih h
          have hnone : behind? m.1 u = none := by
            refine Option.eq_none_iff_forall_not_mem.mpr fun behind hbehind => ?_
            obtain ⟨⟨s, rfl⟩, w, hw, rfl⟩ := behind?_eq_some.mp hbehind
            have hwhole : behind? m.1 (m.1.toList ++ w ++ '(' :: s ++ rest) = some ('(' :: (s ++ rest)) :=
              behind?_eq_some.mpr ⟨⟨s ++ rest, rfl⟩, w, hw, List.append_assoc _ _ _⟩
            cases hm.symm.trans hwhole
          refine ⟨u, rfl, hsuffix, ?_⟩
          rw [List.findSome?_cons, hnone]
          exact hfind

namespace Reader

variable {r : Reader} {path : SourcePath} {lines : List String} {p : Progress} {n : Nat}

/-- The line of a marker without the declaration, if that follows on the line. -/
def undeclared (r : Reader) (lines : List String) (n : Nat) : String :=
  match lines[n - 1]?, r.markerAt? lines n with
  | some l, some (_, _, rest) =>
    if declarationText rest = [] then l else String.ofList (Lexer.taken (trim l.toList) rest)
  | _, _ => ""

/-- The lines of a header with another declaration for the marker at a line, on the line below the marker. -/
def redeclared (r : Reader) (lines : List String) (n : Nat) (text : String) : List String :=
  lines.take (n - 1) ++ [r.undeclared lines n, text] ++ lines.drop (r.textLine lines n)

theorem exists_of_lineAt? {line : List Char} (h : lineAt? lines n = some line) :
    ∃ l, lines[n - 1]? = some l ∧ line = trim l.toList := by
  unfold lineAt? at h
  split at h
  · cases h
  · obtain ⟨l, hl, rfl⟩ := Option.map_eq_some_iff.mp h
    exact ⟨l, hl, rfl⟩

theorem FindsField.cut {line rest : List Char} {list : Bag} (h : r.FindsField p line list rest)
    (htrim : trimLeft line = line) : ∃ u, line = u ++ rest ∧ trim u = u ∧ r.FindsField p u list [] := by
  obtain ⟨name, behind, hmarker, hname, hlist⟩ := h.marker
  obtain ⟨v, rfl, hcloses⟩ := Lexer.attributeList_closes hlist
  rw [List.append_cons] at hmarker
  obtain ⟨u, rfl, ⟨x, rfl⟩, hfind⟩ := MarkerTable.find?_of_append hmarker (by simp)
  have hleft : trimLeft (x ++ (v ++ [')'])) = x ++ (v ++ [')']) := by
    rw [TrailingComment.trimLeft_append] at htrim
    · exact List.append_cancel_right htrim
    · refine trimLeft_ne_nil (Bool.eq_false_iff.mpr fun hall => ?_)
      exact absurd (List.all_eq_true.mp hall ')' (by simp)) (by decide)
  refine ⟨x ++ (v ++ [')']), rfl, ?_, h.between, name, _, hfind, hname, hcloses []⟩
  unfold Text.trim
  rw [hleft, ← List.append_assoc]
  exact trimRight_append_cons rfl _ []

/-- Without its declaration, the line of a field marker is the same marker, and it awaits a declaration. -/
theorem FindsField.undeclared {line rest : List Char} {list : Bag} (h : r.FindsField p line list rest)
    (hline : lineAt? lines n = some line) :
    ∃ rest', r.FindsField p (trim (r.undeclared lines n).toList) list rest' ∧ declarationText rest' = [] := by
  obtain ⟨name, behind, hmarker, -, hlist⟩ := h.marker
  have hmarked := markerAt?_eq hline hmarker hlist
  obtain ⟨l, hl, rfl⟩ := exists_of_lineAt? hline
  unfold Reader.undeclared
  simp only [hl, hmarked]
  by_cases hnone : declarationText rest = []
  · rw [if_pos hnone]
    exact ⟨rest, h, hnone⟩
  · obtain ⟨u, hu, htrim, hcut⟩ := h.cut (trimLeft_trim l.toList)
    rw [if_neg hnone, hu, Lexer.taken_append, String.toList_ofList, htrim]
    exact ⟨[], hcut, List.suffix_nil.mp (declarationText_suffix [])⟩

theorem ReadsField.place {c : Class} {cs : List Class} {list : Bag} {own : List Char} {f : Field}
    (h : r.ReadsField path lines n p c cs list own f) :
    n ≤ lines.length ∧ (r.textLine lines n = n ∨ r.textLine lines n = n + 1) := by
  obtain ⟨line, rest, hline, hfinds⟩ := h.found
  have hplace : r.textLine lines n = n ∨ r.textLine lines n = n + 1 := by
    by_cases hnone : declarationText rest = []
    · exact .inr ((hfinds.places hline).1 hnone).2
    · exact .inl ((hfinds.places hline).2 hnone).2
  have hle := h.behind.1
  exact ⟨by omega, hplace⟩

/-- What a field declares instead joins the class. -/
theorem ReadsField.runLines_redeclared {c : Class} {cs : List Class} {list : Bag} {own : List Char} {f g : Field}
    {t : String} (h : r.ReadsField path lines n p c cs list own f) (ht : trim t.toList = t.toList)
    (hg : r.fieldOf (fieldSite p n list) c p.access t.toList = .ok g) :
    r.runLines { path } 1 (lines.take (n - 1) ++ [r.undeclared lines n, t]) =
      .ok { p with comments := [], classes := { c with fields := c.fields ++ [g] } :: cs } := by
  obtain ⟨hn, hbefore⟩ := h.before
  obtain ⟨line, rest, hline, hfinds⟩ := h.found
  obtain ⟨rest', hbare, hnothing⟩ := hfinds.undeclared hline
  have hdeclares : r.readLine { p with comments := [], mode := .declaration .field (fieldSite p n list) } (n + 1)
      (trim t.toList) = .ok { p with comments := [], classes := { c with fields := c.fields ++ [g] } :: cs } := by
    rw [ht, hbare.between]
    exact readLine_eq_ok.mpr (.declaration rfl (.field h.owner.1 h.owner.2 hg))
  rw [runLines_append, hbefore, List.length_take_of_le (Nat.le_trans (Nat.sub_le n 1) h.place.1),
    Nat.add_sub_cancel' (Nat.one_le_iff_ne_zero.mpr hn)]
  change r.runLines p n [_, _] = _
  refine bind_eq_ok.mpr ⟨_, placedAt_eq_ok.mpr (hbare.readLine_eq hnothing n), ?_⟩
  exact bind_eq_ok.mpr ⟨_, placedAt_eq_ok.mpr hdeclares, rfl⟩

theorem finish_moved {ρ : Nat → Nat} (hzero : ∀ n, ρ n = 0 ↔ n = 0) {q e : Progress} {before ls : List String} {m : Nat}
    {h : Header} (hq : r.runLines { path } 1 before = .ok q) (hstay : ∀ i < before.length, ρ (1 + i) = 1 + i)
    (hmove : ∀ i < ls.length, ρ (1 + before.length + i) = m + i) (he : r.runLines q (1 + before.length) ls = .ok e)
    (hh : r.finish e = .ok h) :
    r.runLines q m ls = .ok (e.renumber ρ) ∧ r.finish (e.renumber ρ) = .ok (h.renumber ρ) := by
  obtain ⟨hone, hkept⟩ := renumber_eq_of_runLines hzero hstay hq
  obtain ⟨_, hmoved, -, rfl⟩ := (runLines_renumber hzero hone hmove).leads e he
  obtain ⟨_, hfinished, rfl⟩ := (finish_renumber hzero).leads h hh
  rw [hkept] at hmoved
  exact ⟨hmoved, hfinished⟩

/-- What is read behind a field is read behind what it is declared as instead, on lines that may have moved by one. -/
theorem ReadsField.read_redeclared {c : Class} {cs : List Class} {list : Bag} {own : List Char} {f g : Field}
    {s t : String} {h : Header} {text : String} (hr : r.read path s = .ok h)
    (hreads : r.ReadsField path (Text.lines s) n p c cs list own f) (htext : trim text.toList = text.toList)
    (hg : r.fieldOf (fieldSite p n list) c p.access text.toList = .ok g) (hsame : f.Same g)
    (ht : Text.lines t = r.redeclared (Text.lines s) n text) :
    ∃ k, r.read path t = .ok k ∧
      (h.renumber (lineBehind n (n + 1 - r.textLine (Text.lines s) n))).Same k := by
  obtain ⟨hdefaults, e, he, hfinish⟩ := read_eq_ok.mp hr
  obtain ⟨hle, hq⟩ := hreads.behind
  obtain ⟨q, hq', hrest⟩ := exists_runLines_take he (r.textLine (Text.lines s) n) hle
  obtain rfl := Except.ok.inj (hq'.symm.trans hq)
  obtain ⟨hn, hplace⟩ := hreads.place
  have hlength := List.length_take_of_le hle
  -- Up to the field everything stays where it is.
  obtain ⟨hmoved, hfinished⟩ := finish_moved (m := 1 + (n + 1))
    (lineBehind_eq_zero_iff n (n + 1 - r.textLine (Text.lines s) n)) hq
    (fun i hi => by rw [hlength] at hi; unfold lineBehind; split <;> omega)
    (fun i _ => by rw [hlength]; unfold lineBehind; split <;> omega) (by rwa [hlength]) hfinish
  have hfield : Progress.Same { p with comments := [], classes := { c with fields := c.fields ++ [f] } :: cs }
      { p with comments := [], classes := { c with fields := c.fields ++ [g] } :: cs } :=
    ⟨_, rfl, .cons (Class.Same.concat (.refl c) hsame) (List.forall₂_same.mpr fun c _ => .refl c)⟩
  obtain ⟨e', k, he', hk, hheader⟩ := exists_same_of_runLines hfield hmoved hfinished
  refine ⟨k, read_eq_ok.mpr ⟨hdefaults, e', ?_, hk⟩, hheader⟩
  have hnew : ((Text.lines s).take (n - 1) ++ [r.undeclared (Text.lines s) n, text]).length = n + 1 := by
    have hpos := hreads.before.1
    rw [List.length_append, List.length_take_of_le (Nat.le_trans (Nat.sub_le n 1) hn)]
    simp only [List.length_cons, List.length_nil]
    omega
  rw [ht, redeclared, runLines_append, hreads.runLines_redeclared htext hg, hnew]
  exact he'

/-! ### Line ends -/

theorem FindsField.suffix {line rest : List Char} {list : Bag} (h : r.FindsField p line list rest) : rest <:+ line := by
  obtain ⟨name, behind, hmarker, -, hlist⟩ := h.marker
  obtain ⟨v, rfl, -⟩ := Lexer.attributeList_closes hlist
  rw [List.append_cons] at hmarker
  exact .trans ⟨_, rfl⟩ (MarkerTable.suffix_of_find? hmarker).2

theorem forall_of_trim {P : Char → Prop} {l : String} (h : ∀ c ∈ l.toList, P c) : ∀ c ∈ trim l.toList, P c := by
  obtain ⟨u, v, htrim, -, -⟩ := exists_trim l.toList
  rw [htrim] at h
  exact fun c hc => h c (List.mem_append_right u (List.mem_append_left v hc))

theorem ReadsField.not_isLineEnd {c : Class} {cs : List Class} {list : Bag} {own : List Char} {f : Field}
    (h : r.ReadsField path lines n p c cs list own f) (hlines : ∀ l ∈ lines, ∀ c ∈ l.toList, isLineEnd c = false) :
    (∀ c ∈ own, isLineEnd c = false) ∧ ∀ c ∈ (r.undeclared lines n).toList, isLineEnd c = false := by
  have hat : ∀ {m line}, lineAt? lines m = some line → ∀ c ∈ line, isLineEnd c = false := by
    intro m line hm
    obtain ⟨l, hl, rfl⟩ := exists_of_lineAt? hm
    exact forall_of_trim (hlines l (List.mem_of_getElem? hl))
  obtain ⟨line, rest, hline, hfinds⟩ := h.found
  constructor
  · by_cases hnone : declarationText rest = []
    · exact hat (((hfinds.places hline).1 hnone).1.symm.trans h.text)
    · obtain rfl := Option.some.inj (((hfinds.places hline).2 hnone).1.symm.trans h.text)
      exact fun c hc => hat hline c (((declarationText_suffix rest).trans hfinds.suffix).subset hc)
  · unfold undeclared
    split
    · rename_i l _ _ rest' hl _
      have hplain := hlines l (List.mem_of_getElem? hl)
      split
      · exact hplain
      · rw [String.toList_ofList]
        exact fun c hc => forall_of_trim hplain c (List.mem_of_mem_take hc)
    · exact List.forall_mem_nil _

/-- There is a text with another declaration for the marker, if that holds no line end. -/
theorem ReadsField.exists_lines_redeclared {c : Class} {cs : List Class} {list : Bag} {own : List Char} {f : Field}
    {s : String} (h : r.ReadsField path (Text.lines s) n p c cs list own f) {text : String}
    (htext : ∀ c ∈ text.toList, isLineEnd c = false) :
    ∃ t, Text.lines t = r.redeclared (Text.lines s) n text := by
  have hlines : ∀ l ∈ Text.lines s, ∀ c ∈ l.toList, isLineEnd c = false := fun _ => not_isLineEnd_of_mem_lines
  refine ⟨unlines _, lines_unlines ?_⟩
  refine List.forall_mem_append.mpr ⟨List.forall_mem_append.mpr ⟨fun l hl => hlines l (List.mem_of_mem_take hl), ?_⟩,
    fun l hl => hlines l (List.mem_of_mem_drop hl)⟩
  exact List.forall_mem_cons.mpr ⟨(h.not_isLineEnd hlines).2, List.forall_mem_singleton.mpr htext⟩

/-! ### Fields that are written out -/

theorem path_of_mem_classes {s : String} {h : Header} (hr : r.read path s = .ok h) {c : Class} (hc : c ∈ h.classes) :
    c.path = path := by
  obtain ⟨-, e, he, hfinish⟩ := read_eq_ok.mp hr
  have hpath : h.path = path := read_path hr
  obtain ⟨-, -, rfl⟩ := finish_eq_ok.mp hfinish
  obtain ⟨hone, -⟩ := renumber_eq_of_runLines (lineBehind_eq_zero_iff (Text.lines s).length 0)
    (fun i hi => lineBehind_of_le (by omega)) he
  exact (hone.classes c (List.mem_reverse.mp hc)).trans hpath

theorem renumber_eq_self {ρ : Nat → Nat} {f : Field} {k : DeclarationKind} {bag : Bag}
    (h : f.toDeclaration.MadeAt path n k bag) (hn : ρ n = n) : f.renumber path ρ = f := by
  have hkept : f.toDeclaration.renumber path ρ = f.toDeclaration := by
    unfold Declaration.renumber
    rw [h.line, hn, ← h.uid, ← h.line]
  unfold Field.renumber
  rw [hkept]

/-- A field of a header that has no native attributes in its declaration, and whose type does not begin like one, can be
written out on the line below its marker.  The text is accepted, and it declares what the header declares, everything
behind the field at its new line: in the same class there is the same field, and it is written out alike. -/
theorem read_rendered_field {s : String} {h : Header} (hr : r.read path s = .ok h) {c : Class} (hc : c ∈ h.classes)
    {f : Field} (hf : f ∈ c.fields)
    (hown : ∀ own, r.declarationAt? (Text.lines s) f.line = some own → Lexer.nativeAttributes.eval own = .ok [])
    (hnative : ¬"[[".toList <+: f.type.toList) :
    (∃ t, Text.lines t = r.redeclared (Text.lines s) f.line f.render) ∧
      ∀ t, Text.lines t = r.redeclared (Text.lines s) f.line f.render →
        ∃ k, r.read path t = .ok k ∧
          (h.renumber (lineBehind f.line (f.line + 1 - r.textLine (Text.lines s) f.line))).Same k ∧
          ∃ d ∈ k.classes, d.name = c.name ∧ ∃ g ∈ d.fields, f.Same g ∧ g.render = f.render := by
  obtain ⟨p, owner, cs, list, own, hreads⟩ := readsField_of_mem_fields hr hc hf
  have hlines : ∀ l ∈ Text.lines s, ∀ c ∈ l.toList, isLineEnd c = false := fun _ => not_isLineEnd_of_mem_lines
  have hdeclares := fieldOf_declares _ _ _ _ _ hreads.field
  have hplain := Field.not_isLineEnd_render hdeclares (hreads.not_isLineEnd hlines).1
  refine ⟨hreads.exists_lines_redeclared hplain, fun t ht => ?_⟩
  obtain ⟨flags, hg, hflags⟩ := fieldOf_render hreads.field (hown own hreads.text) hnative
  obtain ⟨k, hk, hsame⟩ := hreads.read_redeclared hr (Field.trim_render hdeclares) hg ⟨flags, rfl, hflags⟩ ht
  refine ⟨k, hk, hsame, ?_⟩
  -- The field itself stays on its line.
  have hkept : f.renumber c.path (lineBehind f.line (f.line + 1 - r.textLine (Text.lines s) f.line)) = f := by
    obtain ⟨site, _, _, _, hsite, hline, hmade⟩ := fieldOf_of_mem_fields hr hc hf
    obtain ⟨_, -, hmade⟩ := fieldOf_makes _ _ _ _ _ hmade
    rw [path_of_mem_classes hr hc, ← hsite.path]
    refine renumber_eq_self hmade ?_
    rw [hline]
    exact lineBehind_of_le (Nat.le_refl _)
  obtain ⟨ds, rfl, hds⟩ := hsame
  obtain ⟨d, hd, fs, rfl, hfs⟩ := exists_of_forall₂ hds (List.mem_map_of_mem hc)
  obtain ⟨g, hgmem, hfg⟩ := exists_of_forall₂ hfs (List.mem_map_of_mem hf)
  rw [hkept] at hfg
  refine ⟨_, hd, rfl, g, hgmem, hfg, ?_⟩
  obtain ⟨flags, rfl, hflags⟩ := hfg
  exact Field.render_congr hflags

/-- A field in braces behind its marker, its words in the other order. -/
theorem read_rendered_field_braces :
    ∃ h k, (Reader.ofSettings {}).read ⟨.relative, ["Unit.h"]⟩
        "RClass()\nstruct Unit \x7b\nRBody();\nRField(); mutable static Map<A, B>  m\x7b 1 \x7d ;\n\x7d;" = .ok h ∧
      (Reader.ofSettings {}).read ⟨.relative, ["Unit.h"]⟩
        "RClass()\nstruct Unit \x7b\nRBody();\nRField()\nstatic mutable Map<A, B> m\x7b 1 \x7d;\n\x7d;" = .ok k ∧
      (h.renumber (lineBehind 4 1)).Same k := by
  have hrun : ((Reader.ofSettings {}).read ⟨.relative, ["Unit.h"]⟩
      "RClass()\nstruct Unit \x7b\nRBody();\nRField(); mutable static Map<A, B>  m\x7b 1 \x7d ;\n\x7d;"
      |>.toOption.any fun h => h.classes.any fun c => c.fields.any fun f =>
        f.line == 4 && f.type == "Map<A, B>" && f.render == "static mutable Map<A, B> m\x7b 1 \x7d;") = true := by
    rw [read_ofList]
    decide +kernel
  have hlines : Text.lines
      "RClass()\nstruct Unit \x7b\nRBody();\nRField(); mutable static Map<A, B>  m\x7b 1 \x7d ;\n\x7d;" =
        ["RClass()", "struct Unit \x7b", "RBody();", "RField(); mutable static Map<A, B>  m\x7b 1 \x7d ;", "\x7d;"] := by
    rw [Text.lines_ofList]
    rfl
  have hplaces : (Reader.ofSettings {}).textLine
      ["RClass()", "struct Unit \x7b", "RBody();", "RField(); mutable static Map<A, B>  m\x7b 1 \x7d ;", "\x7d;"] 4 = 4 ∧
        (Reader.ofSettings {}).declarationAt?
          ["RClass()", "struct Unit \x7b", "RBody();", "RField(); mutable static Map<A, B>  m\x7b 1 \x7d ;", "\x7d;"] 4 =
            some "mutable static Map<A, B>  m\x7b 1 \x7d ;".toList := by
    decide +kernel
  have hnew : Text.lines
      "RClass()\nstruct Unit \x7b\nRBody();\nRField()\nstatic mutable Map<A, B> m\x7b 1 \x7d;\n\x7d;" =
        (Reader.ofSettings {}).redeclared
          ["RClass()", "struct Unit \x7b", "RBody();", "RField(); mutable static Map<A, B>  m\x7b 1 \x7d ;", "\x7d;"]
          4 "static mutable Map<A, B> m\x7b 1 \x7d;" := by
    rw [Text.lines_ofList]
    decide +kernel
  obtain ⟨h, hread, hrun⟩ := Checked.exists_ok_of_any hrun
  obtain ⟨c, hc, hrun⟩ := List.any_eq_true.mp hrun
  obtain ⟨f, hf, hrun⟩ := List.any_eq_true.mp hrun
  simp only [Bool.and_eq_true, beq_iff_eq] at hrun
  obtain ⟨⟨hline, htype⟩, hrender⟩ := hrun
  obtain ⟨-, hrendered⟩ := read_rendered_field hread hc hf (by
    intro own hown
    rw [hline, hlines, hplaces.2] at hown
    obtain rfl := Option.some.inj hown
    exact congrArg Prod.fst (Lexer.answer_nativeAttributes (by decide))) (by rw [htype]; decide)
  rw [hline, hrender, hlines, hplaces.1] at hrendered
  obtain ⟨k, hk, hsame, -⟩ := hrendered _ hnew
  exact ⟨h, k, hread, hk, hsame⟩

end Reader

end HeaderReflection
