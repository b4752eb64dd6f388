import HeaderReflection.Proofs.Source.Characters
import HeaderReflection.Proofs.Source.CommentedHeads
import HeaderReflection.Proofs.Source.Steps

/-! # Comments behind declarations

A line comment behind the text of a declaration is inert: the header is accepted with it if it is without it,
and declares the same (`Reader.read_append_comment`).

* For this the text has to be closed, that is, whatever goes on up to a stop has to end on the line
  (`Reader.isClosed`).
* On a line that is not closed, the comment becomes part of what is read: of the base type of an enum, of the
  bases of a class, or of the return type of a method (`Reader.read_comment_behind_open_line`).
* The text itself may hold no comment (`Reader.IsUncommented`), and the name of no marker may hold the slashes
  of one; otherwise the comment could end or begin somewhere else.

The comment goes through the reader from the line inwards: the line is trimmed, its marker is found, the list
behind the marker is read, and what is left is the text of the declaration with the comment behind it
(`Reader.markerLine_follows`).  There the lexers of the declaration are steady. -/

namespace HeaderReflection

open Checked Text TrailingComment

/-! ### Texts without comments -/

/-- No comment stands in the text. -/
def IsUncommented (s : List Char) : Prop := ¬"//".toList <:+: s ∧ ¬"/*".toList <:+: s

instance (s : List Char) : Decidable (IsUncommented s) := inferInstanceAs (Decidable (_ ∧ _))

theorem IsUncommented.mono {s t : List Char} (h : IsUncommented t) (hst : s <:+: t) : IsUncommented s :=
  ⟨fun hline => h.1 (hline.trans hst), fun hblock => h.2 (hblock.trans hst)⟩

section text

variable {c : TrailingComment} {s t : List Char}

theorem trimComments_of_not_comment (hline : ¬"//".toList <+: trimLeft s) (hblock : ¬"/*".toList <+: trimLeft s) :
    trimComments s = trimLeft s := by
  rw [trimComments.eq_def]
  split
  · rename_i hs
    exact absurd ⟨_, hs.symm⟩ hline
  · rename_i hs
    exact absurd ⟨_, hs.symm⟩ hblock
  · rfl

theorem pair_prefix_of_append {d e : Char} (he : isBlank e = false) (hs : s ≠ [])
    (h : [d, e] <+: s ++ c.chars) : [d, e] <+: s := by
  obtain ⟨b, x, hchars, hb⟩ := c.exists_chars_eq_cons
  obtain ⟨v, hv⟩ := h
  match s with
  | [] => exact absurd rfl hs
  | [f] =>
      rw [hchars] at hv
      obtain rfl : e = b := by
        have htail := (List.cons.inj hv).2
        exact (List.cons.inj htail).1
      rw [hb] at he
      cases he
  | f :: g :: s =>
      obtain ⟨rfl, htail⟩ := List.cons.inj hv
      obtain ⟨rfl, -⟩ := List.cons.inj htail
      exact ⟨s, rfl⟩

namespace IsUncommented

theorem trimComments_eq (hs : IsUncommented s) : trimComments s = trimLeft s :=
  trimComments_of_not_comment (fun h => hs.1 (h.isInfix.trans (trimLeft_suffix s).isInfix))
    fun h => hs.2 (h.isInfix.trans (trimLeft_suffix s).isInfix)

/-- A comment behind a text does not hide it. -/
theorem follows_trimComments (hs : IsUncommented s) (ht : c.Follows s t) (hne : trimComments s ≠ []) :
    c.Follows (trimComments s) (trimComments t) := by
  have heq := hs.trimComments_eq
  rw [heq] at hne ⊢
  have hend := ht.trimLeft.eq_append hne
  have hkept : trimComments t = trimLeft t := by
    apply trimComments_of_not_comment
    · intro h
      rw [hend] at h
      have hbegin := pair_prefix_of_append (by decide) hne h
      exact hs.1 (hbegin.isInfix.trans (trimLeft_suffix s).isInfix)
    · intro h
      rw [hend] at h
      have hbegin := pair_prefix_of_append (by decide) hne h
      exact hs.2 (hbegin.isInfix.trans (trimLeft_suffix s).isInfix)
  rw [hkept]
  exact ht.trimLeft

theorem trimComments_eq_nil (hs : IsUncommented s) (ht : c.Follows s t) (hnil : trimComments s = []) :
    trimComments t = [] := by
  have hslashes : trimLeft t = c.slashes := by
    rw [hs.trimComments_eq] at hnil
    cases ht with
    | behind => rw [trimLeft_append_of_blank hnil, trimLeft_chars]
    | alone => rfl
  rw [trimComments.eq_def]
  split
  · rfl
  · rename_i ht
    rw [hslashes] at ht
    cases ht
  · rename_i hline _
    exact absurd hslashes (hline _)

end IsUncommented

theorem exists_follows_trim (line comment : List Char) :
    ∃ c : TrailingComment, c.Follows (trim line) (trim (line ++ " // ".toList ++ comment)) := by
  have hslash : isBlank '/' = false := by decide
  have hspace : ∀ d ∈ [' '], isBlank d = true := List.forall_mem_singleton.mpr (by decide)
  have hcomment : ∀ u : List Char, trimRight (u ++ " // ".toList ++ comment) =
      u ++ (' ' :: '/' :: '/' :: trimRight (' ' :: comment)) := by
    intro u
    have hsecond := trimRight_append_cons hslash (u ++ [' ', '/']) (' ' :: comment)
    simpa using hsecond
  unfold trim
  by_cases hline : trimLeft line = []
  · refine ⟨⟨[' '], trimRight (' ' :: comment), List.cons_ne_nil _ _, hspace⟩, ?_⟩
    rw [List.append_assoc, trimLeft_append_of_blank hline, hline]
    have hskip : trimLeft (" // ".toList ++ comment) = "// ".toList ++ comment := rfl
    have halone := trimRight_append_cons hslash ['/'] (' ' :: comment)
    have hright : trimRight ("// ".toList ++ comment) = '/' :: '/' :: trimRight (' ' :: comment) := halone
    rw [hskip, hright]
    exact .alone
  · obtain ⟨w, hw, hblank⟩ := exists_trimRight (trimLeft line)
    have hgap : ∀ d ∈ w ++ [' '], isBlank d = true :=
      List.forall_mem_append.mpr ⟨hblank, hspace⟩
    refine ⟨⟨w ++ [' '], trimRight (' ' :: comment), by simp, hgap⟩, ?_⟩
    have hwhole : trimLeft line ++ (' ' :: '/' :: '/' :: trimRight (' ' :: comment)) =
        trimRight (trimLeft line) ++ (w ++ [' '] ++ ('/' :: '/' :: trimRight (' ' :: comment))) := by
      rw [List.append_assoc, ← List.append_assoc, ← hw]
      rfl
    rw [List.append_assoc, trimLeft_append hline, ← List.append_assoc, hcomment, hwhole]
    exact .behind _

end text

/-! ### Markers -/

namespace MarkerTable

variable {c : TrailingComment}

theorem behind?_eq_some {name : String} {line behind : List Char} :
    behind? name line = some behind ↔ (∃ s, behind = '(' :: s) ∧
      ∃ w, isBlankText w = true ∧ line = name.toList ++ w ++ behind := by
  unfold behind?
  constructor
  · intro h
    split at h
    · rename_i s hs
      obtain rfl := Option.some.inj h
      obtain ⟨rest, hrest, hs⟩ := Option.map_eq_some_iff.mp hs
      obtain ⟨w, hw, hblank⟩ := Lexer.exists_blank_trimLeft rest
      refine ⟨⟨s, rfl⟩, w, hblank, ?_⟩
      rw [Lexer.dropLiteral?_eq_some.mp hrest, List.append_assoc, ← hs, ← hw]
    · cases h
  · rintro ⟨⟨s, rfl⟩, w, hblank, rfl⟩
    have hrest : Lexer.dropLiteral? name.toList (name.toList ++ w ++ '(' :: s) = some (w ++ '(' :: s) :=
      Lexer.dropLiteral?_eq_some.mpr (List.append_assoc _ _ _)
    have hskip : trimLeft (w ++ '(' :: s) = '(' :: s := by
      unfold trimLeft
      rw [List.dropWhile_append_of_pos (List.all_eq_true.mp hblank)]
      rfl
    rw [hrest, Option.map_some, hskip]
    rfl

theorem exists_slashes_of_chars {v s : List Char} (h : c.chars = v ++ '(' :: s) :
    ∃ x y, v = x ++ '/' :: '/' :: y := by
  rcases List.append_eq_append_iff.mp h with ⟨u, rfl, hu⟩ | ⟨u, hu, hs⟩
  · match u with
    | [] => cases hu
    | [d] => cases hu
    | d :: e :: u =>
        obtain ⟨rfl, htail⟩ := List.cons.inj hu
        obtain ⟨rfl, -⟩ := List.cons.inj htail
        exact ⟨c.gap, u, rfl⟩
  · cases u with
    | nil => cases hs
    | cons d u =>
        obtain ⟨rfl, -⟩ := List.cons.inj hs
        have hblank := c.gap_blank '(' (by rw [hu]; simp)
        cases hblank

theorem slashes_infix_of_append {u w x y : List Char} (hw : isBlankText w = true)
    (h : u ++ w = x ++ '/' :: '/' :: y) : "//".toList <:+: u := by
  have hslash : '/' ∉ w := fun hmem => absurd (List.all_eq_true.mp hw _ hmem) (by decide)
  rcases List.append_eq_append_iff.mp h with ⟨v, -, rfl⟩ | ⟨v, rfl, hv⟩
  · simp at hslash
  · match v with
    | [] =>
        obtain rfl : '/' :: '/' :: y = w := hv
        simp at hslash
    | [d] =>
        obtain ⟨-, rfl⟩ := List.cons.inj hv
        simp at hslash
    | d :: e :: v =>
        obtain ⟨rfl, htail⟩ := List.cons.inj hv
        obtain ⟨rfl, -⟩ := List.cons.inj htail
        exact ⟨x, v, by simp⟩

/-- A comment behind a line does not make it begin with another marker, unless the name of one holds a comment. -/
theorem behind?_append (c : TrailingComment) {name : String} (hname : ¬"//".toList <:+: name.toList)
    (line : List Char) : behind? name (line ++ c.chars) = (behind? name line).map (· ++ c.chars) := by
  cases hline : behind? name line with
  | some behind =>
      obtain ⟨⟨s, rfl⟩, w, hblank, rfl⟩ := behind?_eq_some.mp hline
      refine behind?_eq_some.mpr ⟨⟨s ++ c.chars, rfl⟩, w, hblank, ?_⟩
      exact List.append_assoc _ _ _
  | none =>
      refine Option.eq_none_iff_forall_not_mem.mpr fun behind hbehind => ?_
      obtain ⟨⟨s, rfl⟩, w, hblank, happend⟩ := behind?_eq_some.mp hbehind
      rcases List.append_eq_append_iff.mp happend with ⟨v, hv, hs⟩ | ⟨v, hv, hs⟩
      · obtain ⟨x, y, rfl⟩ := exists_slashes_of_chars hs
        rw [← List.append_assoc] at hv
        exact hname (slashes_infix_of_append hblank hv)
      · cases v with
        | nil =>
            obtain ⟨d, x, hchars, hd⟩ := c.exists_chars_eq_cons
            rw [List.nil_append, hchars] at hs
            obtain rfl := (List.cons.inj hs).1
            cases hd
        | cons d v =>
            obtain ⟨rfl, rfl⟩ := List.cons.inj hs
            rw [behind?_eq_some.mpr ⟨⟨v, rfl⟩, w, hblank, hv⟩] at hline
            cases hline

theorem find?_append (c : TrailingComment) {table : MarkerTable}
    (htable : ∀ m ∈ table, ¬"//".toList <:+: m.1.toList) (line : List Char) :
    table.find? (line ++ c.chars) = (table.find? line).map fun m => (m.1, m.2.1, m.2.2 ++ c.chars) := by
  unfold find?
  induction table with
  | nil => rfl
  | cons m table ih =>
      obtain ⟨hm, htable⟩ := List.forall_mem_cons.mp htable
      rw [List.findSome?_cons, List.findSome?_cons, behind?_append c hm]
      cases behind? m.1 line with
      | none => exact ih htable
      | some behind => rfl

theorem suffix_of_find? {table : MarkerTable} {line behind : List Char} {name : String} {kind : MarkerKind}
    (h : table.find? line = some (name, kind, behind)) : behind ≠ [] ∧ behind <:+ line := by
  obtain ⟨m, -, hm⟩ := List.exists_of_findSome?_eq_some h
  obtain ⟨v, hv, hm⟩ := Option.map_eq_some_iff.mp hm
  cases hm
  obtain ⟨⟨s, rfl⟩, w, -, rfl⟩ := behind?_eq_some.mp hv
  exact ⟨List.cons_ne_nil _ s, List.suffix_append _ _⟩

end MarkerTable

/-! ### Declarations -/

namespace Reader

variable {r : Reader} {p q : Progress} {kind : MarkerKind} {c : TrailingComment} {text text' : List Char}

/-- What is read of the text up to a stop has its stop there. -/
def isClosed : MarkerKind → List Char → Bool
  | .classType => ClassHead.isClosed
  | .enumType => EnumHead.isClosed
  | .method => MethodText.isClosed
  | _ => fun _ => true

/-- The kind of declaration that a line is read as and its text, behind its marker or all of the line. -/
def declarationOn? (r : Reader) (p : Progress) (line : List Char) : Option (MarkerKind × List Char) :=
  match p.mode with
  | .declaration kind _ => some (kind, line)
  | .between =>
    match r.markers.find? line with
    | none => none
    | some (name, kind, behind) =>
      if name = r.markerName .body then none
      else
        match Lexer.attributeList.split behind with
        | .error _ => none
        | .ok (_, rest) => if (declarationText rest).isEmpty then none else some (kind, declarationText rest)
  | _ => none

theorem leads_eval {α : Type} {m : Lexer α} (hm : m.SettledAt text) (ht : c.Follows text text') :
    Leads Eq (m.eval text) (m.eval text') :=
  fun a ha => ⟨a, hm a ha c text' ht, rfl⟩

theorem leads_split {α : Type} {m : Lexer α} (hm : m.SteadyAt text) (ht : c.Follows text text') :
    Leads (fun a b => a.1 = b.1 ∧ a.2 <:+ text ∧ c.Follows a.2 b.2) (m.split text) (m.split text') := by
  rintro ⟨a, v⟩ h
  have hanswer : m.answer text = (.ok a, v) := by
    unfold Lexer.split at h
    split at h
    · rename_i heq
      cases h
      exact heq
    · cases h
  obtain ⟨hv, hcomment⟩ := hm a v hanswer
  obtain ⟨u, hu, hvu⟩ := hcomment c text' ht
  refine ⟨(a, u), ?_, rfl, hv, hvu⟩
  unfold Lexer.split
  rw [hu]

theorem declarationText_of_semicolon {rest s : List Char} (h : trimLeft rest = ';' :: s) :
    declarationText rest = trimComments s := by
  unfold declarationText
  rw [h]
  rfl

theorem declarationText_of_ne_semicolon {rest : List Char} (h : ∀ s, trimLeft rest ≠ ';' :: s) :
    declarationText rest = trimComments (trimLeft rest) := by
  unfold declarationText
  split
  · rename_i hs
    exact absurd hs (h _)
  · rfl

/-- A declaration behind a marker has the comment behind it that the line has. -/
theorem follows_declarationText {rest rest' : List Char} (hfree : IsUncommented rest) (ht : c.Follows rest rest')
    (hne : declarationText rest ≠ []) :
    declarationText rest <:+ rest ∧ c.Follows (declarationText rest) (declarationText rest') := by
  by_cases hsemicolon : ∃ s, trimLeft rest = ';' :: s
  · obtain ⟨s, hs⟩ := hsemicolon
    have hend : trimLeft rest' = ';' :: (s ++ c.chars) := by
      rw [ht.trimLeft.eq_append (by rw [hs]; exact List.cons_ne_nil _ s), hs]
      rfl
    have hsuffix : s <:+ rest := .trans ⟨[';'], hs.symm⟩ (trimLeft_suffix rest)
    have hfree := hfree.mono hsuffix.isInfix
    rw [declarationText_of_semicolon hs] at hne ⊢
    rw [declarationText_of_semicolon hend]
    refine ⟨?_, hfree.follows_trimComments (.behind s) hne⟩
    rw [hfree.trimComments_eq]
    exact (trimLeft_suffix s).trans hsuffix
  · have hplain : ∀ s, trimLeft rest ≠ ';' :: s := fun s hs => hsemicolon ⟨s, hs⟩
    have hfree := hfree.mono (trimLeft_suffix rest).isInfix
    rw [declarationText_of_ne_semicolon hplain] at hne ⊢
    have hstart : trimLeft rest ≠ [] := by
      intro hnil
      rw [hnil, trimComments.eq_def] at hne
      exact hne rfl
    have hplain' : ∀ s, trimLeft rest' ≠ ';' :: s := by
      intro s hs
      obtain ⟨d, v, hv⟩ := List.exists_cons_of_ne_nil hstart
      rw [ht.trimLeft.eq_append hstart, hv] at hs
      rw [(List.cons.inj hs).1] at hv
      exact hplain v hv
    rw [declarationText_of_ne_semicolon hplain']
    refine ⟨?_, hfree.follows_trimComments ht.trimLeft hne⟩
    rw [hfree.trimComments_eq]
    exact (trimLeft_suffix _).trans (trimLeft_suffix rest)

theorem declare_follows (site : MarkerSite) (ht : c.Follows text text') (hfree : IsUncommented text)
    (hclosed : isClosed kind text = true) :
    Leads Eq (r.declare p kind site text) (r.declare p kind site text') := by
  cases kind with
  | classType =>
      have hclass : Leads Eq (r.classOf site text) (r.classOf site text') := by
        refine .bind (.lift (leads_eval (ClassHead.steadyAt_read hclosed).settled ht)) ?_
        rintro head _ rfl
        exact .refl _
      refine .bindSame _ fun _ => .bind hclass ?_
      rintro d _ rfl
      exact .refl _
  | body => exact .refl _
  | field =>
      refine .bindSame _ fun a => ?_
      have hfield : Leads Eq (r.fieldOf site a.1 p.access text) (r.fieldOf site a.1 p.access text') := by
        refine .bind (.lift (leads_eval (FieldText.settledAt_read text) ht)) ?_
        rintro t _ rfl
        exact .refl _
      refine .bind hfield ?_
      rintro f _ rfl
      exact .refl _
  | method =>
      refine .bindSame _ fun a => ?_
      have hmethod : Leads Eq (r.methodOf site a.1 p.access text) (r.methodOf site a.1 p.access text') := by
        refine .bind (.lift (leads_eval (MethodText.steadyAt_read hclosed).settled ht)) ?_
        rintro t _ rfl
        exact .refl _
      refine .bind hmethod ?_
      rintro m _ rfl
      exact .refl _
  | enumType =>
      refine .bind (.lift (leads_split (EnumHead.steadyAt_read hclosed) ht)) ?_
      rintro ⟨head, rest⟩ ⟨_, rest'⟩ ⟨rfl, hrest, hfollows⟩
      refine .ite (fun _ => ?_) fun _ => .refl _
      unfold beginEnum
      by_cases hnil : trimComments rest = []
      · rw [hnil, (hfree.mono hrest.isInfix).trimComments_eq_nil hfollows hnil]
        exact .refl _
      · rw [if_neg (fun hempty => hnil (List.isEmpty_iff.mp hempty))]
        exact .throw_bind _ _
  | enumerator => exact .throw _ _

theorem markerLine_eq {n : Nat} {name : String} {behind rest : List Char} {bag : Bag}
    (hlist : Lexer.attributeList.split behind = .ok (bag, rest)) (hname : name ≠ r.markerName .body)
    (hne : declarationText rest ≠ []) :
    r.markerLine p n name kind behind =
      r.declare { p with comments := [] } kind ⟨p.path, n, p.comments, bag⟩ (declarationText rest) := by
  obtain ⟨d, v, hv⟩ := List.exists_cons_of_ne_nil hne
  unfold markerLine
  rw [hlist]
  show (if _ then _ else _) = _
  rw [if_neg hname, hv]

theorem markerLine_follows {n : Nat} {name : String} {behind behind' rest : List Char} {bag : Bag}
    (hlist : Lexer.attributeList.split behind = .ok (bag, rest)) (ht : c.Follows behind behind')
    (hfree : IsUncommented behind) (hne : declarationText rest ≠ []) (hname : name ≠ r.markerName .body)
    (hclosed : isClosed kind (declarationText rest) = true) :
    Leads Eq (r.markerLine p n name kind behind) (r.markerLine p n name kind behind') := by
  obtain ⟨⟨_, rest'⟩, hlist', rfl, hsuffix, hrest⟩ := leads_split (Lexer.steady_attributeList behind) ht _ hlist
  have hfree := hfree.mono hsuffix.isInfix
  obtain ⟨hwithin, htext⟩ := follows_declarationText hfree hrest hne
  have hne' : declarationText rest' ≠ [] := by
    rw [htext.eq_append hne]
    exact List.append_ne_nil_of_left_ne_nil hne _
  rw [markerLine_eq hlist hname hne, markerLine_eq hlist' hname hne']
  exact declare_follows _ htext (hfree.mono hwithin.isInfix) hclosed

theorem readLine_follows {line line' : List Char} (n : Nat) (hmarkers : ∀ m ∈ r.markers, ¬"//".toList <:+: m.1.toList)
    (ht : c.Follows line line') (hfree : IsUncommented line)
    (hdeclares : r.declarationOn? p line = some (kind, text)) (hclosed : isClosed kind text = true) :
    Leads Eq (r.readLine p n line) (r.readLine p n line') := by
  unfold declarationOn? at hdeclares
  unfold readLine
  cases hmode : p.mode with
  | declaration k site =>
      rw [hmode] at hdeclares
      cases hdeclares
      exact declare_follows site ht hfree hclosed
  | opening head site =>
      rw [hmode] at hdeclares
      cases hdeclares
  | enumerators body =>
      rw [hmode] at hdeclares
      cases hdeclares
  | between =>
      rw [hmode] at hdeclares
      dsimp only at hdeclares ⊢
      cases hfind : r.markers.find? line with
      | none =>
          rw [hfind] at hdeclares
          cases hdeclares
      | some m =>
          obtain ⟨name, k, behind⟩ := m
          rw [hfind] at hdeclares
          dsimp only at hdeclares
          obtain ⟨hbehind, hsuffix⟩ := MarkerTable.suffix_of_find? hfind
          have hne : line ≠ [] := by
            rintro rfl
            exact hbehind (List.suffix_nil.mp hsuffix)
          rw [ht.eq_append hne, MarkerTable.find?_append c hmarkers, hfind]
          dsimp only [Option.map_some]
          split at hdeclares
          · cases hdeclares
          · rename_i hname
            split at hdeclares
            · cases hdeclares
            · rename_i bag rest hlist
              split at hdeclares
              · cases hdeclares
              · rename_i htext
                cases hdeclares
                exact markerLine_follows hlist (.behind behind) (hfree.mono hsuffix.isInfix)
                  (fun h => htext (List.isEmpty_iff.mpr h)) hname hclosed

/-! ### Headers -/

/-- A comment behind the declaration on a line changes nothing of what is declared.  The text of the declaration has
to be closed, and the name of no marker may hold a comment. -/
theorem read_append_comment {path : SourcePath} {s t line comment : String} {before after : List String}
    {h : Header} (hs : Text.lines s = before ++ line :: after)
    (ht : Text.lines t = before ++ (line ++ " // " ++ comment) :: after)
    (hmarkers : ∀ m ∈ r.markers, ¬"//".toList <:+: m.1.toList) (hfree : IsUncommented line.toList)
    (hdeclares : (r.runLines { path } 1 before).toOption.bind (r.declarationOn? · (trim line.toList)) =
      some (kind, text)) (hclosed : isClosed kind text = true) (hread : r.read path s = .ok h) :
    r.read path t = .ok h := by
  obtain ⟨p, hp, hdeclares⟩ := Option.bind_eq_some_iff.mp hdeclares
  have hp := toOption_eq_some.mp hp
  have htrim : trim line.toList <:+: line.toList := by
    obtain ⟨w, hw, -⟩ := exists_trimRight (trimLeft line.toList)
    have hleft : trim line.toList <+: trimLeft line.toList := ⟨w, hw.symm⟩
    exact hleft.isInfix.trans (trimLeft_suffix _).isInfix
  have hrun : Leads Eq (r.runLines { path } 1 (Text.lines s)) (r.runLines { path } 1 (Text.lines t)) := by
    obtain ⟨c, hfollows⟩ := exists_follows_trim line.toList comment.toList
    have hfollows : c.Follows (trim line.toList) (trim (line ++ " // " ++ comment).toList) := by
      simpa using hfollows
    rw [hs, ht, runLines_append, runLines_append, hp]
    change Leads Eq (r.runLines p (1 + before.length) (line :: after))
      (r.runLines p (1 + before.length) ((line ++ " // " ++ comment) :: after))
    refine .bind (.placedAt (readLine_follows _ hmarkers hfollows (hfree.mono htrim) hdeclares hclosed) _ _ _ _) ?_
    rintro q _ rfl
    exact .refl _
  obtain ⟨hdefaults, q, hq, hfinish⟩ := read_eq_ok.mp hread
  obtain ⟨_, hq', rfl⟩ := hrun q hq
  exact read_eq_ok.mpr ⟨hdefaults, q, hq', hfinish⟩

/-- A comment behind the bases of a class whose brace stands on the same line. -/
theorem read_append_comment_bases :
    ∃ h, (Reader.ofSettings {}).read ⟨.relative, ["Unit.h"]⟩
        "RClass()\nclass Unit : public Base \x7b\nRBody();\n\x7d;" = .ok h ∧
      IsUncommented "class Unit : public Base \x7b".toList ∧
      isClosed .classType "class Unit : public Base \x7b".toList = true ∧
      (Reader.ofSettings {}).read ⟨.relative, ["Unit.h"]⟩
        "RClass()\nclass Unit : public Base \x7b // a unit\nRBody();\n\x7d;" = .ok h := by
  have hmarkers : ∀ m ∈ (Reader.ofSettings {}).markers, ¬"//".toList <:+: m.1.toList := by decide +kernel
  have hfree : IsUncommented "class Unit : public Base \x7b".toList := by decide +kernel
  have hclosed : isClosed .classType "class Unit : public Base \x7b".toList = true := by decide +kernel
  have hread : ((Reader.ofSettings {}).read ⟨.relative, ["Unit.h"]⟩
      "RClass()\nclass Unit : public Base \x7b\nRBody();\n\x7d;").toOption.isSome = true := by
    rw [read_ofList]
    decide +kernel
  obtain ⟨h, hh⟩ := Option.isSome_iff_exists.mp hread
  have hh := toOption_eq_some.mp hh
  have happend := read_append_comment (r := Reader.ofSettings {})
    (t := "RClass()\nclass Unit : public Base \x7b // a unit\nRBody();\n\x7d;")
    (Text.lines_ofList _ : _ = ["RClass()"] ++ "class Unit : public Base \x7b" :: ["RBody();", "\x7d;"])
    (Text.lines_ofList _ : _ = ["RClass()"] ++ ("class Unit : public Base \x7b" ++ " // " ++ "a unit") :: _)
    hmarkers hfree (by decide +kernel) hclosed hh
  exact ⟨h, hh, hfree, hclosed, happend⟩

/-- On a line that is not closed, the comment becomes part of the base type of an enum or of the return type of a
method, and makes the bases of a class invalid. -/
theorem read_comment_behind_open_line :
    let r := Reader.ofSettings {}
    let baseTypes (text : String) := (r.read ⟨.relative, ["Unit.h"]⟩ text).toOption.map fun h =>
      h.enums.map (·.baseType)
    let bases (text : String) := (r.read ⟨.relative, ["Unit.h"]⟩ text).toOption.map fun h =>
      h.classes.map (·.baseClass)
    let returnTypes (text : String) := (r.read ⟨.relative, ["Unit.h"]⟩ text).toOption.map fun h =>
      h.classes.map fun c => c.methods.map (·.returnType)
    (baseTypes "REnum()\nenum Color : int\n\x7b\nRed\n\x7d;" = some ["int"] ∧
      baseTypes "REnum()\nenum Color : int // wide\n\x7b\nRed\n\x7d;" = some ["int // wide"]) ∧
    (bases "RClass()\nclass Unit : Base\n\x7b\nRBody();\n\x7d;" = some ["Base"] ∧
      bases "RClass()\nclass Unit : Base // wide\n\x7b\nRBody();\n\x7d;" = none) ∧
    (returnTypes "RClass()\nstruct Unit \x7b\nRBody();\nRMethod()\nauto F() -> int\n\x7d;" = some [["int"]] ∧
      returnTypes "RClass()\nstruct Unit \x7b\nRBody();\nRMethod()\nauto F() -> int // wide\n\x7d;" =
        some [["int // wide"]]) := by
  dsimp only
  repeat rw [read_ofList]
  decide +kernel

end Reader

end HeaderReflection
