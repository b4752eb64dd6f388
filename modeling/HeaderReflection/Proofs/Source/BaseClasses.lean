import HeaderReflection.Proofs.Lexer.WholeTypes
import HeaderReflection.Proofs.Source.Characters
import HeaderReflection.Proofs.Source.MethodParts
import HeaderReflection.Proofs.Source.Origins
import Mathlib.Data.List.TakeWhile

/-! # Base classes

The bases of a class are the pieces of a list that is cut at its commas outside of brackets, all brackets
counted as one, while each base is a type, whose brackets are counted kind by kind.

* The two ways to count agree on a type that is read whole (`IsWholeType.behind_eq_zero`).  So a type that
  encloses its commas stays in one piece, and the pieces of a list of bases are the bases.
* A base is a type behind words such as `public` and `virtual` (`IsBase`).  These are skipped one after the
  other, and they have no brackets and no commas.
* A list is accepted exactly if each of its pieces is blank or a base, and its first base is the base of the
  class (`ClassHead.IsBaseList`, `ClassHead.exists_isBaseList`).

Both directions are put together in `Reader.baseClass_of_bases`: a head that is written with a name and bases
is read to them, and the bases of a head that is read are such a list.  The list ends in front of the brace,
so bases hold no brace. -/

namespace HeaderReflection

open Text BracketSet

namespace Lexer

variable {s t u w a B : List Char} {d e : Depths}

/-! ### Brackets of types -/

theorem after_typeMark (depth : Int) (c : Char) :
    typeBrackets.after depth c =
      match typeMark? c with
      | some (.opens _) => depth + 1
      | some (.closes _) => depth - 1
      | none => depth := by
  by_cases hbracket : ∃ b : Bracket, c = b.opener ∨ c = b.closer
  · obtain ⟨b, rfl | rfl⟩ := hbracket
    all_goals
      cases b
      all_goals rfl
  · have hother : ∀ b : Bracket, c ≠ b.opener ∧ c ≠ b.closer := fun b =>
      ⟨fun h => hbracket ⟨b, .inl h⟩, fun h => hbracket ⟨b, .inr h⟩⟩
    have hnone : typeMark? c = none := by
      have hmark := ofChar?_eq_none (fun b => (hother b).1) fun b => (hother b).2
      unfold BracketMark.ofChar? at hmark
      unfold typeMark?
      split at hmark
      · cases hmark
      · cases hmark
      · rename_i hopener hcloser
        rw [hopener, hcloser]
        rfl
    rw [hnone]
    unfold BracketSet.after
    rw [if_neg, if_neg]
    · simpa [typeBrackets] using ⟨(hother .round).2, (hother .angle).2, (hother .square).2⟩
    · simpa [typeBrackets] using ⟨(hother .round).1, (hother .angle).1, (hother .square).1⟩

/-- Where the kinds are counted one by one, their sum is what is counted of all of them. -/
theorem behind_of_after? (h : d.after? (s.filterMap typeMark?) = some e) :
    typeBrackets.behind d.total s = e.total := by
  induction s generalizing d with
  | nil =>
      obtain rfl := Option.some.inj h
      rfl
  | cons c s ih =>
      show typeBrackets.behind (typeBrackets.after d.total c) s = e.total
      rw [after_typeMark]
      cases hmark : typeMark? c with
      | none =>
          rw [List.filterMap_cons_none hmark] at h
          exact ih h
      | some m =>
          rw [List.filterMap_cons_some hmark] at h
          cases m with
          | opens b =>
              have hrest := ih (d := d.opened b) h
              rwa [Depths.total_opened] at hrest
          | closes b =>
              unfold Depths.after? at h
              split at h
              · rename_i d' hclosed
                have hrest := ih h
                rwa [Depths.total_closed hclosed] at hrest
              · cases h

/-- The text is a type that is read whole. -/
def IsWholeType (B : List Char) : Prop := typeText.answer B = (.ok B, [])

theorem IsWholeType.trimLeft_eq (h : IsWholeType B) : trimLeft B = B := by
  have htrim := (answer_typeText_whole.mp h).2
  have honce := trimLeft_trim B
  rwa [← htrim] at honce

theorem IsWholeType.behind_eq_zero (h : IsWholeType B) : typeBrackets.behind 0 B = 0 := by
  obtain ⟨t, ht, -, hcloses⟩ := typeText_closes h
  rw [h.trimLeft_eq, List.append_nil] at ht
  subst ht
  exact behind_of_after? hcloses

theorem answer_upTo_end {stops : List Char} (hs : ∀ d ∈ s, d ∉ stops) : (upTo stops).answer s = (.ok s, []) := by
  have hgoes : ∀ d ∈ s, (!stops.contains d) = true := fun d hd => by simpa using hs d hd
  show (Except.ok (s.takeWhile (!stops.contains ·)), s.dropWhile (!stops.contains ·)) = _
  rw [List.takeWhile_eq_self_iff.mpr hgoes, List.dropWhile_eq_nil_iff.mpr hgoes]

end Lexer

namespace Text

/-! ### Lists of pieces -/

variable {b : BracketSet} {s t : List Char} {ps : List (List Char)}

/-- No comma stands outside brackets, and behind the text no bracket is open. -/
def BracketSet.IsPiece (b : BracketSet) (s : List Char) : Prop := b.Encloses isComma 0 s ∧ b.behind 0 s = 0

theorem BracketSet.IsPiece.append (hs : b.IsPiece s) (ht : b.IsPiece t) : b.IsPiece (s ++ t) := by
  refine ⟨encloses_append.mpr ⟨hs.1, ?_⟩, ?_⟩
  · rw [hs.2]
    exact ht.1
  · rw [behind_append, hs.2]
    exact ht.2

theorem BracketSet.areLevel_of_isPiece (hps : ∀ p ∈ ps, b.IsPiece p) : b.AreLevel ps :=
  ⟨fun p hp => (hps p hp).1, fun p hp => (hps p (List.dropLast_subset ps hp)).2⟩

theorem mem_intercalate {c d : Char} (h : c ∈ [d].intercalate ps) : c = d ∨ ∃ p ∈ ps, c ∈ p := by
  induction ps with
  | nil => cases h
  | cons p ps ih =>
      cases ps with
      | nil => exact .inr ⟨p, List.mem_cons_self, by simpa using h⟩
      | cons q ps =>
          rw [List.intercalate_cons_cons, List.append_assoc] at h
          rcases List.mem_append.mp h with hp | hrest
          · exact .inr ⟨p, List.mem_cons_self, hp⟩
          · rcases List.mem_cons.mp hrest with rfl | hrest
            · exact .inl rfl
            · rcases ih hrest with rfl | ⟨q, hq, hc⟩
              · exact .inl rfl
              · exact .inr ⟨q, List.mem_cons_of_mem p hq, hc⟩

theorem encloses_of_mem_splitOutside (b : BracketSet) (depth : Int) (s : List Char) :
    ∃ p ps, splitOutside b depth s = p :: ps ∧ b.Encloses isComma depth p ∧ ∀ q ∈ ps, b.Encloses isComma 0 q := by
  induction s generalizing depth with
  | nil => exact ⟨[], [], rfl, encloses_nil, List.forall_mem_nil _⟩
  | cons c s ih =>
      rw [splitOutside]
      split
      · rename_i hcut
        obtain ⟨p, ps, hsplit, hp, hps⟩ := ih depth
        rw [hcut.2] at hp
        exact ⟨[], _, rfl, encloses_nil, hsplit ▸ List.forall_mem_cons.mpr ⟨hp, hps⟩⟩
      · rename_i hgoes
        obtain ⟨p, ps, hsplit, hp, hps⟩ := ih (b.after depth c)
        rw [hsplit]
        exact ⟨c :: p, ps, rfl, encloses_cons.mpr ⟨fun hc hdepth => hgoes ⟨eq_of_beq hc, hdepth⟩, hp⟩, hps⟩

theorem mem_of_mem_splitOutside {depth : Int} {p : List Char} {c : Char} (hp : p ∈ splitOutside b depth s)
    (hc : c ∈ p) : c ∈ s := by
  induction s generalizing depth p with
  | nil =>
      obtain rfl := List.mem_singleton.mp hp
      cases hc
  | cons d s ih =>
      rw [splitOutside] at hp
      split at hp
      · rcases List.mem_cons.mp hp with rfl | hp
        · cases hc
        · exact List.mem_cons_of_mem d (ih hp hc)
      · split at hp
        · rename_i q qs hsplit
          rcases List.mem_cons.mp hp with rfl | hp
          · rcases List.mem_cons.mp hc with rfl | hc
            · exact List.mem_cons_self
            · exact List.mem_cons_of_mem d (ih (hsplit ▸ List.mem_cons_self) hc)
          · exact List.mem_cons_of_mem d (ih (hsplit ▸ List.mem_cons_of_mem q hp) hc)
        · rename_i hnil
          exact absurd hnil (splitOutside_ne_nil b _ s)

theorem isPiece_of_forall (hs : ∀ c ∈ s, Lexer.typeMark? c = none ∧ c ≠ ',') : typeBrackets.IsPiece s := by
  induction s with
  | nil => exact ⟨encloses_nil, rfl⟩
  | cons c s ih =>
      obtain ⟨⟨hmark, hcomma⟩, hs⟩ := List.forall_mem_cons.mp hs
      have hafter : typeBrackets.after 0 c = 0 := by rw [Lexer.after_typeMark, hmark]
      obtain ⟨hencloses, hbehind⟩ := ih hs
      refine ⟨encloses_cons.mpr ⟨fun hc => absurd (eq_of_beq hc) hcomma, ?_⟩, ?_⟩
      · rw [hafter]
        exact hencloses
      · show typeBrackets.behind (typeBrackets.after 0 c) s = 0
        rw [hafter]
        exact hbehind

theorem isPiece_of_isBlankText (hs : isBlankText s = true) : typeBrackets.IsPiece s := by
  refine isPiece_of_forall fun c hc => ?_
  have hblank := List.all_eq_true.mp hs c hc
  refine ⟨?_, ?_⟩
  · unfold Lexer.typeMark?
    rw [Lexer.ofOpener?_of_isBlank hblank, Lexer.ofCloser?_of_isBlank hblank]
    rfl
  · rintro rfl
    cases hblank

end Text

namespace ClassHead

open Lexer

variable {s t u w p r B : List Char} {b : String}

/-! ### Bases -/

/-- A type that can be a base: it is read whole, has no comma outside brackets and no curly bracket that would open
the class, and does not begin with a word that may stand before a base. -/
structure IsBaseType (B : List Char) : Prop where
  ne_nil : B ≠ []
  whole : IsWholeType B
  encloses : typeBrackets.Encloses isComma 0 B
  not_brace : '\x7b' ∉ B
  not_word : ∀ w ∈ baseWords, dropWord? w B = none

/-- The piece is the base, behind any number of words and between blanks. -/
inductive IsBase (B : List Char) : List Char → Prop where
  | type {u v : List Char} (hB : IsBaseType B) (hu : isBlankText u = true) (hv : isBlankText v = true) :
      IsBase B (u ++ (B ++ v))
  | word {u w t : List Char} (hu : isBlankText u = true) (hw : w ∈ baseWords) (ht : EndsWord t) (h : IsBase B t) :
      IsBase B (u ++ (w ++ t))

theorem isWord_baseWords : ∀ w ∈ baseWords, IsWord w := by
  have hwords : ∀ w ∈ baseWords, w ≠ [] ∧ ∀ c ∈ w, isIdentifierChar c = true := by decide
  exact hwords

theorem solid_baseWords : ∀ w ∈ baseWords, w ≠ [] ∧ ∀ c ∈ w, isBlank c = false := by decide

theorem IsBase.isBaseType (h : IsBase B p) : IsBaseType B := by
  induction h with
  | type hB => exact hB
  | word _ _ _ _ ih => exact ih

theorem IsBase.skipWords (h : IsBase B p) : ∃ v, Lexer.skipWords baseWords p = B ++ v ∧ isBlankText v = true := by
  induction h with
  | @type u v hB hu hv =>
      have htrim : trimLeft (u ++ (B ++ v)) = B ++ v := by
        rw [trimLeft_blank_append hu, TrailingComment.trimLeft_append (by rw [hB.whole.trimLeft_eq]; exact hB.ne_nil),
          hB.whole.trimLeft_eq]
      have hnone : baseWords.findSome? (dropWord? · (B ++ v)) = none :=
        (findSome?_append_blanks (fun w hw => (solid_baseWords w hw).2) hv B).mpr
          (List.findSome?_eq_none_iff.mpr hB.not_word)
      refine ⟨v, ?_, hv⟩
      rw [skipWords_eq fun w hw => (solid_baseWords w hw).1, htrim, hnone]
  | @word u w t hu hw ht _ ih =>
      obtain ⟨v, hskip, hv⟩ := ih
      have htrim : trimLeft (u ++ (w ++ t)) = w ++ t := by
        rw [trimLeft_blank_append hu, (isWord_baseWords w hw).trimLeft_append]
      have hfound : baseWords.findSome? (dropWord? · (w ++ t)) = some t := findSome?_word isWord_baseWords hw ht
      refine ⟨v, ?_, hv⟩
      rw [skipWords_eq fun w hw => (solid_baseWords w hw).1, htrim, hfound]
      exact hskip

/-- What is left behind words is a base, if it is one on its own. -/
theorem isBase_of_skipWords {p v : List Char} (hB : IsBaseType B) (hv : isBlankText v = true)
    (h : Lexer.skipWords baseWords p = B ++ v) : IsBase B p := by
  obtain ⟨u, hp, hu⟩ := exists_blank_trimLeft p
  rw [skipWords_eq fun w hw => (solid_baseWords w hw).1] at h
  rw [hp]
  cases hfound : baseWords.findSome? (dropWord? · (trimLeft p)) with
  | none =>
      rw [hfound] at h
      have hrest : trimLeft p = B ++ v := h
      rw [hrest]
      exact .type hB hu hv
  | some t =>
      rw [hfound] at h
      obtain ⟨w, hw, hword⟩ := List.exists_of_findSome?_eq_some hfound
      have hrest := eq_append_of_dropWord? hword
      have hends : EndsWord t := by
        rw [dropWord?_eq (isWord_baseWords w hw)] at hword
        split at hword
        · exact Option.some.inj hword ▸ endsWord_dropWhile _
        · cases hword
      have hshorter : t.length < p.length := length_lt_of_trimLeft hrest (solid_baseWords w hw).1
      rw [hrest]
      exact .word hu hw hends (isBase_of_skipWords hB hv h)
termination_by p.length

theorem IsBase.isPiece (h : IsBase B p) : typeBrackets.IsPiece p := by
  have hwords : ∀ w ∈ baseWords, ∀ c ∈ w, typeMark? c = none ∧ c ≠ ',' := by decide
  induction h with
  | type hB hu hv =>
      exact (isPiece_of_isBlankText hu).append
        (.append ⟨hB.encloses, hB.whole.behind_eq_zero⟩ (isPiece_of_isBlankText hv))
  | word hu hw _ _ ih => exact (isPiece_of_isBlankText hu).append (.append (isPiece_of_forall (hwords _ hw)) ih)

theorem IsBase.not_blank (h : IsBase B p) : isBlankText p = false := by
  refine Bool.eq_false_iff.mpr fun hblank => ?_
  obtain ⟨v, hskip, -⟩ := h.skipWords
  have hnone := skipWords_append_blanks solid_baseWords hblank []
  rw [List.nil_append, if_pos (by cbv)] at hnone
  exact h.isBaseType.ne_nil (List.append_eq_nil_iff.mp (hskip.symm.trans hnone)).1

theorem IsBase.not_brace (h : IsBase B p) : '\x7b' ∉ p := by
  have hwords : ∀ w ∈ baseWords, '\x7b' ∉ w := by decide
  have hblank : ∀ {u : List Char}, isBlankText u = true → '\x7b' ∉ u := fun hu hmem =>
    absurd (List.all_eq_true.mp hu _ hmem) (by decide)
  induction h with
  | type hB hu hv => simp [hblank hu, hblank hv, hB.not_brace]
  | word hu hw _ _ ih => simp [hblank hu, hwords _ hw, ih]

theorem IsBase.baseOf (h : IsBase B p) : ClassHead.baseOf p = .ok (String.ofList B) := by
  obtain ⟨v, hskip, hv⟩ := h.skipWords
  have hne := h.isBaseType.ne_nil
  unfold ClassHead.baseOf
  rw [hskip, (answer_typeText_append_blanks hv B).mpr h.isBaseType.whole]
  exact if_neg (by simp [hne, isBlankText])

theorem plain_baseWords : ∀ w ∈ baseWords, ∀ c ∈ w, typeMark? c = none := by decide

theorem encloses_skipWords (hp : typeBrackets.Encloses isComma 0 p) :
    typeBrackets.Encloses isComma 0 (Lexer.skipWords baseWords p) := by
  obtain ⟨front, hfront, hplain⟩ := exists_skipWords plain_baseWords p
  have hlevel : typeBrackets.behind 0 front = 0 :=
    behind_of_after? (d := {}) (e := {}) (by rw [List.filterMap_eq_nil_iff.mpr hplain]; rfl)
  rw [hfront, encloses_append, hlevel] at hp
  exact hp.2

theorem exists_answer_of_baseOf (h : ClassHead.baseOf p = .ok b) :
    ∃ B r, Lexer.typeText.answer (Lexer.skipWords baseWords p) = (.ok B, r) ∧ B ≠ [] ∧ isBlankText r = true ∧
      b = String.ofList B := by
  unfold ClassHead.baseOf at h
  dsimp only at h
  split at h
  · cases h
  · rename_i B r hanswer
    split at h
    · cases h
    · rename_i hvalid
      obtain ⟨hne, hr⟩ : B ≠ [] ∧ isBlankText r = true := by simpa using hvalid
      exact ⟨B, r, hanswer, hne, hr, (Except.ok.inj h).symm⟩

/-- A piece that is accepted is a base. -/
theorem exists_isBase_of_baseOf (hp : typeBrackets.Encloses isComma 0 p) (hbrace : '\x7b' ∉ p)
    (h : ClassHead.baseOf p = .ok b) : ∃ B, IsBase B p ∧ b = String.ofList B := by
  obtain ⟨B, r, hanswer, hne, hr, rfl⟩ := exists_answer_of_baseOf h
  obtain rfl := eq_nil_of_answer_typeText hanswer hr
  -- Behind the words stands the type with the blanks that end the piece.
  obtain ⟨v, hv, hblank⟩ := exists_trimRight (trimLeft (Lexer.skipWords baseWords p))
  have hB : trimRight (trimLeft (Lexer.skipWords baseWords p)) = B := (answer_typeText_whole.mp hanswer).2.symm
  rw [hB, trimLeft_skipWords] at hv
  have hvb : isBlankText v = true := List.all_eq_true.mpr hblank
  have hnone := not_word_skipWords (fun w hw => (solid_baseWords w hw).1) p
  have hencloses := encloses_skipWords hp
  obtain ⟨front, hfront, -⟩ := exists_skipWords plain_baseWords p
  rw [hv] at hanswer hnone hencloses hfront
  refine ⟨B, isBase_of_skipWords ⟨hne, ?_, (encloses_append.mp hencloses).1, ?_, ?_⟩ hvb hv, rfl⟩
  · exact (answer_typeText_append_blanks hvb B).mp hanswer
  · rw [hfront] at hbrace
    exact fun hmem => hbrace (by simp [hmem])
  · rw [← List.findSome?_eq_none_iff] at hnone ⊢
    exact (findSome?_append_blanks (fun w hw => (solid_baseWords w hw).2) hvb B).mp hnone

/-! ### Lists of bases -/

/-- Bases with commas between them, the first of which is `B`.  Blank pieces may stand between them. -/
structure IsBaseList (s B : List Char) (ps : List (List Char)) : Prop where
  text : s = [','].intercalate ps
  bases : ∀ p ∈ ps, isBlankText p = true ∨ ∃ C, IsBase C p
  first : ∃ p, ps.find? (!isBlankText ·) = some p ∧ IsBase B p

theorem ok_of_mapM_eq_ok {ε α β : Type} {f : α → Except ε β} {l : List α} {bs : List β} (h : l.mapM f = .ok bs) :
    ∀ a ∈ l, ∃ b, f a = .ok b := by
  induction l generalizing bs with
  | nil => exact List.forall_mem_nil _
  | cons a l ih =>
      rw [List.mapM_cons] at h
      obtain ⟨b, hb, h⟩ := Checked.bind_eq_ok.mp h
      obtain ⟨cs, hcs, -⟩ := Checked.bind_eq_ok.mp h
      exact List.forall_mem_cons.mpr ⟨⟨b, hb⟩, ih hcs⟩

theorem firstBase_eq_ok_iff :
    firstBase s = .ok b ↔ (∀ p ∈ basePieces s, ∃ c, ClassHead.baseOf p = .ok c) ∧
      ∃ p, (basePieces s).head? = some p ∧ ClassHead.baseOf p = .ok b := by
  unfold firstBase
  cases hpieces : basePieces s with
  | nil => exact iff_of_false nofun fun h => nomatch h.2
  | cons p ps =>
      constructor
      · intro h
        obtain ⟨bs, hbs, h⟩ := Checked.bind_eq_ok.mp h
        have hall := ok_of_mapM_eq_ok hbs
        refine ⟨hall, p, rfl, ?_⟩
        rw [List.mapM_cons] at hbs
        obtain ⟨c, hc, hbs⟩ := Checked.bind_eq_ok.mp hbs
        obtain ⟨cs, -, hbs⟩ := Checked.bind_eq_ok.mp hbs
        obtain rfl := Checked.pure_eq_ok.mp hbs
        exact hc.trans h
      · rintro ⟨hall, q, hq, hb⟩
        obtain rfl := Option.some.inj hq
        obtain ⟨cs, hcs⟩ := Checked.exists_mapM_eq_ok (List.forall_mem_cons.mp hall).2
        refine Checked.bind_eq_ok.mpr ⟨b :: cs, ?_, rfl⟩
        rw [List.mapM_cons, hb, hcs]
        rfl

/-- The first base of a list of bases is found. -/
theorem IsBaseList.firstBase {ps : List (List Char)} (h : IsBaseList s B ps) :
    ClassHead.firstBase s = .ok (String.ofList B) := by
  obtain ⟨p, hfind, hp⟩ := h.first
  have hpieces : basePieces s = ps.filter (!isBlankText ·) := by
    unfold basePieces
    rw [h.text, splitOutside_intercalate]
    · refine BracketSet.areLevel_of_isPiece fun q hq => ?_
      rcases h.bases q hq with hblank | ⟨C, hC⟩
      · exact isPiece_of_isBlankText hblank
      · exact hC.isPiece
    · rintro rfl
      cases hfind
  refine firstBase_eq_ok_iff.mpr ⟨?_, p, ?_, hp.baseOf⟩
  · intro q hq
    rw [hpieces] at hq
    obtain ⟨hmem, hvisible⟩ := List.mem_filter.mp hq
    rcases h.bases q hmem with hblank | ⟨C, hC⟩
    · rw [hblank] at hvisible
      cases hvisible
    · exact ⟨_, hC.baseOf⟩
  · rw [hpieces, List.head?_filter]
    exact hfind

/-- A list that is accepted is one of bases. -/
theorem exists_isBaseList (hbrace : '\x7b' ∉ s) (h : ClassHead.firstBase s = .ok b) :
    ∃ B, IsBaseList s B (splitOutside typeBrackets 0 s) ∧ b = String.ofList B := by
  obtain ⟨hall, p, hfind, hb⟩ := firstBase_eq_ok_iff.mp h
  have hencloses : ∀ p ∈ splitOutside typeBrackets 0 s, typeBrackets.Encloses isComma 0 p := by
    obtain ⟨q, qs, hsplit, hq, hqs⟩ := encloses_of_mem_splitOutside typeBrackets 0 s
    rw [hsplit]
    exact List.forall_mem_cons.mpr ⟨hq, hqs⟩
  have hbraces : ∀ p ∈ splitOutside typeBrackets 0 s, '\x7b' ∉ p := fun p hp hmem =>
    hbrace (mem_of_mem_splitOutside hp hmem)
  have hbase : ∀ p ∈ splitOutside typeBrackets 0 s, ∀ c, ClassHead.baseOf p = .ok c →
      ∃ B, IsBase B p ∧ c = String.ofList B :=
    fun p hp c hc => exists_isBase_of_baseOf (hencloses p hp) (hbraces p hp) hc
  have hfind : (splitOutside typeBrackets 0 s).find? (!isBlankText ·) = some p := by
    rw [← List.head?_filter]
    exact hfind
  obtain ⟨B, hB, rfl⟩ := hbase p (List.mem_of_find?_eq_some hfind) b hb
  refine ⟨B, ⟨(intercalate_splitOutside typeBrackets 0 s).symm, fun q hq => ?_, p, hfind, hB⟩, rfl⟩
  cases hblank : isBlankText q with
  | true => exact .inl rfl
  | false =>
      obtain ⟨c, hc⟩ := hall q (List.mem_filter.mpr ⟨hq, by rw [hblank]; rfl⟩)
      obtain ⟨C, hC, -⟩ := hbase q hq c hc
      exact .inr ⟨C, hC⟩

/-! ### Heads -/

/-- The parts of the head of a class that has bases, each piece of their list with its base. -/
structure Written where
  isStruct : Bool := false
  /-- The blanks in front of the name. -/
  gap : List Char
  name : List Char
  /-- The blanks in front of `final`. -/
  final? : Option (List Char) := none
  colonGap : List Char := []
  first : List Char × List Char
  others : List (List Char × List Char) := []
  /-- What stands behind an opening brace. -/
  behindBrace? : Option (List Char) := none

namespace Written

/-- The keyword of the class. -/
def keyword (h : Written) : List Char := (if h.isStruct then "struct" else "class").toList

/-- The word that may stand behind the name. -/
def finalText (h : Written) : List Char :=
  match h.final? with
  | some u => u ++ "final".toList
  | none => []

/-- The bases with commas between them. -/
def basesText (h : Written) : List Char := [','].intercalate (h.first.1 :: h.others.map (·.1))

/-- The opening brace and what stands behind it. -/
def braceText (h : Written) : List Char :=
  match h.behindBrace? with
  | some s => '\x7b' :: s
  | none => []

/-- The text of a head. -/
def text (h : Written) : List Char :=
  h.keyword ++ (h.gap ++ (h.name ++ (h.finalText ++ (h.colonGap ++ ':' :: (h.basesText ++ h.braceText)))))

/-- The parts are what they are called. -/
structure IsValid (h : Written) : Prop where
  gap : IsGap h.gap
  name : IsWord h.name
  final : ∀ u, h.final? = some u → IsGap u
  colonGap : isBlankText h.colonGap = true
  first : IsBase h.first.2 h.first.1
  others : ∀ p ∈ h.others, IsBase p.2 p.1

variable {h : Written}

theorem IsValid.not_mem_basesText (hh : h.IsValid) : '\x7b' ∉ h.basesText := by
  intro hmem
  obtain hcomma | ⟨p, hp, hbrace⟩ := mem_intercalate hmem
  · cases hcomma
  · rcases List.mem_cons.mp hp with rfl | hp
    · exact hh.first.not_brace hbrace
    · obtain ⟨q, hq, rfl⟩ := List.mem_map.mp hp
      exact (hh.others q hq).not_brace hbrace

theorem IsValid.isBaseList (hh : h.IsValid) :
    IsBaseList h.basesText h.first.2 (h.first.1 :: h.others.map (·.1)) where
  text := rfl
  bases := by
    refine List.forall_mem_cons.mpr ⟨.inr ⟨_, hh.first⟩, fun p hp => ?_⟩
    obtain ⟨q, hq, rfl⟩ := List.mem_map.mp hp
    exact .inr ⟨_, hh.others q hq⟩
  first := ⟨_, List.find?_cons_of_pos (by rw [hh.first.not_blank]; rfl), hh.first⟩

theorem IsValid.swallowKeyword {v w : List Char} (hh : h.IsValid) (hv : IsWord v) (hw : IsWord w) (t : List Char) :
    (swallowWord v).answer (w ++ (h.gap ++ t)) =
      (.ok (decide (w = v)), if w = v then h.gap ++ t else w ++ (h.gap ++ t)) := by
  refine (answer_swallowBy _ _).trans ?_
  rw [hw.trimLeft_append, dropWord?_of_word hv hw (hh.gap.endsWord t)]
  by_cases hword : w = v
  · rw [if_pos hword, if_pos hword, decide_eq_true hword]
  · rw [if_neg hword, if_neg hword, decide_eq_false hword]

theorem IsValid.swallowFinal (hh : h.IsValid) (t : List Char) :
    ∃ b u, isBlankText u = true ∧
      (swallowWord "final".toList).answer (h.finalText ++ (h.colonGap ++ ':' :: t)) = (.ok b, u ++ ':' :: t) := by
  have hfinal : IsWord "final".toList := ⟨by decide, by decide⟩
  have hcolon : EndsWord (':' :: t) := .cons (by decide) t
  have hanswer := answer_swallowBy (dropWord? "final".toList) (h.finalText ++ (h.colonGap ++ ':' :: t))
  unfold finalText at hanswer ⊢
  cases hfound : h.final? with
  | some u =>
      rw [hfound] at hanswer
      refine ⟨true, h.colonGap, hh.colonGap, hanswer.trans ?_⟩
      rw [List.append_assoc, trimLeft_blank_append (hh.final u hfound).2, hfinal.trimLeft_append,
        dropWord?_of_word hfinal hfinal (.blank_append hh.colonGap hcolon), if_pos rfl]
  | none =>
      rw [hfound] at hanswer
      refine ⟨false, [], rfl, hanswer.trans ?_⟩
      have htrim : trimLeft ([] ++ (h.colonGap ++ ':' :: t)) = ':' :: t := trimLeft_blank_append hh.colonGap (':' :: t)
      rw [htrim]
      rfl

theorem IsValid.readName (hh : h.IsValid) :
    ∃ u, isBlankText u = true ∧
      ClassHead.readName.answer h.text = (.ok (h.isStruct, [], h.name), u ++ ':' :: (h.basesText ++ h.braceText)) := by
  obtain ⟨b, u, hu, hfinal⟩ := hh.swallowFinal (h.basesText ++ h.braceText)
  let behind := h.finalText ++ (h.colonGap ++ ':' :: (h.basesText ++ h.braceText))
  have hends : EndsWord behind := by
    have hcolon : EndsWord (h.colonGap ++ ':' :: (h.basesText ++ h.braceText)) :=
      .blank_append hh.colonGap (.cons (by decide) _)
    show EndsWord (h.finalText ++ _)
    unfold finalText
    cases hfound : h.final? with
    | some u =>
        rw [List.append_assoc]
        exact (hh.final u hfound).endsWord _
    | none => exact hcolon
  have htrim : trimLeft (h.gap ++ (h.name ++ behind)) = h.name ++ behind := by
    rw [trimLeft_blank_append hh.gap.2, hh.name.trimLeft_append]
  have hnative : nativeAttributes.answer (h.gap ++ (h.name ++ behind)) = (.ok [], h.name ++ behind) := by
    rw [answer_nativeAttributes, htrim]
    rw [htrim]
    exact hh.name.not_cons_isPrefix_append (by decide) _ _
  have hbehind : ∀ isStruct : Bool, (do
      let native ← nativeAttributes
      let name ← identifier
      let _ ← swallowWord "final".toList
      return (isStruct, native, name) : Lexer (Bool × Bag × List Char)).answer (h.gap ++ (h.name ++ behind)) =
        (.ok (isStruct, [], h.name), u ++ ':' :: (h.basesText ++ h.braceText)) := by
    intro isStruct
    refine (answer_bind_of_ok hnative).trans ((answer_bind_of_ok (hh.name.answer_identifier hends)).trans ?_)
    exact answer_bind_of_ok hfinal
  have hstruct : IsWord "struct".toList := ⟨by decide, by decide⟩
  have hclass : IsWord "class".toList := ⟨by decide, by decide⟩
  refine ⟨u, hu, ?_⟩
  unfold text keyword
  cases h.isStruct with
  | true =>
      exact (answer_bind_of_ok (hh.swallowKeyword hstruct hstruct (h.name ++ behind))).trans (hbehind true)
  | false =>
      refine (answer_bind_of_ok (hh.swallowKeyword hstruct hclass (h.name ++ behind))).trans ?_
      exact (answer_bind_of_ok (hh.swallowKeyword hclass hclass (h.name ++ behind))).trans (hbehind false)

theorem IsValid.read (hh : h.IsValid) :
    ClassHead.read.eval h.text = .ok ⟨h.isStruct, [], String.ofList h.name, String.ofList h.first.2⟩ := by
  obtain ⟨u, hu, hname⟩ := hh.readName
  have hcolon : (swallow [':']).answer (u ++ ':' :: (h.basesText ++ h.braceText)) =
      (.ok true, h.basesText ++ h.braceText) :=
    swallow_eq_true (trimLeft_blank_append hu _)
  have hbases : (upTo ['\x7b']).answer (h.basesText ++ h.braceText) = (.ok h.basesText, h.braceText) := by
    have hplain : ∀ d ∈ h.basesText, d ∉ ['\x7b'] := fun d hd hmem =>
      hh.not_mem_basesText (List.mem_singleton.mp hmem ▸ hd)
    unfold braceText
    cases h.behindBrace? with
    | some s => exact answer_upTo hplain List.mem_cons_self
    | none => rw [List.append_nil]; exact answer_upTo_end hplain
  obtain ⟨b, r, hbrace⟩ : ∃ b r, (swallow ['\x7b']).answer h.braceText = (.ok b, r) := by
    have hanswer := answer_swallowBy (dropLiteral? ['\x7b']) h.braceText
    split at hanswer
    · exact ⟨_, _, hanswer⟩
    · exact ⟨_, _, hanswer⟩
  have hlist : firstBase h.basesText = .ok (String.ofList h.first.2) := hh.isBaseList.firstBase
  have hread : ClassHead.read.answer h.text =
      (.ok ⟨h.isStruct, [], String.ofList h.name, String.ofList h.first.2⟩,
        r) := by
    rw [← read_eq]
    refine (answer_bind_of_ok hname).trans ?_
    refine (answer_bind_of_ok hcolon).trans ?_
    refine (answer_bind_of_ok hbases).trans ?_
    dsimp only
    rw [hlist]
    exact answer_bind_of_ok hbrace
  exact congrArg Prod.fst hread

end Written

/-- Behind what stands in front of the bases a colon comes next, and `u` stands behind it. -/
def HasBases (s u : List Char) : Prop := ∃ front r, readName.answer s = (.ok front, r) ∧ trimLeft r = ':' :: u

/-- The bases of a head that is read are a list of bases, and its first one is the base of the class. -/
theorem baseClass_of_read {head : ClassHead} (h : read.eval s = .ok head) (hu : HasBases s u) :
    ∃ B, IsBaseList (u.takeWhile (· ≠ '\x7b')) B (splitOutside typeBrackets 0 (u.takeWhile (· ≠ '\x7b'))) ∧
      head.baseClass = String.ofList B := by
  obtain ⟨front, r, hname, hr⟩ := hu
  obtain ⟨q, hq⟩ : ∃ q, read.answer s = (.ok head, q) := ⟨_, Prod.ext h rfl⟩
  rw [← read_eq] at hq
  have hbases := (answer_bind_of_ok hname).symm.trans hq
  have hcolon : (swallow [':']).answer r = (.ok true, u) := swallow_eq_true hr
  have hlist := (answer_bind_of_ok hcolon).symm.trans hbases
  have htaken : (upTo ['\x7b']).answer u =
      (.ok (u.takeWhile (· ≠ '\x7b')), u.dropWhile fun c => !(['\x7b'].contains c)) := by
    have hstop : (fun c : Char => !(['\x7b'].contains c)) = (· ≠ '\x7b') := by
      funext c
      simp
    rw [← hstop]
    rfl
  have hfirst := (answer_bind_of_ok htaken).symm.trans hlist
  have hbrace : '\x7b' ∉ u.takeWhile (· ≠ '\x7b') := fun hmem => by
    simpa using List.all_eq_true.mp List.all_takeWhile _ hmem
  dsimp only at hfirst
  split at hfirst
  · rename_i b hb
    obtain ⟨B, hB, rfl⟩ := exists_isBaseList hbrace hb
    obtain ⟨c, x, hc, hrest⟩ := bind_answer_eq_ok.mp hfirst
    obtain ⟨_, _, -, hhead⟩ := bind_answer_eq_ok.mp hrest
    cases hc
    cases hhead
    exact ⟨B, hB, rfl⟩
  · cases hfirst

end ClassHead

/-! ### Classes of headers -/

namespace Reader

open Checked

variable {r : Reader}

theorem classOf_declares (site : MarkerSite) (text : List Char) :
    Yields (r.classOf site text) fun c => ∃ head, ClassHead.read.eval text = .ok head ∧ c.name = head.name ∧
      c.baseClass = head.baseClass ∧ c.line = site.line := by
  refine .bind (.lift fun head hhead => hhead) fun head hhead => ?_
  refine .bind (.any _) fun b _ => .bind (.any _) fun flags _ => .ite (fun _ => .throw_bind _) fun _ => ?_
  refine .bind (.any _) fun _ _ => .bind (.any _) fun _ _ => .bind (.any _) fun _ _ => .bind (.any _) fun _ _ => ?_
  refine .bind (.any _) fun _ _ => .bind (.any _) fun _ _ => .bind (.any _) fun _ _ => .pure ?_
  exact ⟨head, hhead, rfl, rfl, rfl⟩

/-- A class of a header is what the text at its line declares. -/
def DeclaresClass (r : Reader) (lines : List String) (c : Class) : Prop :=
  ∃ own head, r.declarationAt? lines c.line = some own ∧ ClassHead.read.eval own = .ok head ∧ c.name = head.name ∧
    c.baseClass = head.baseClass

theorem declaresClass_invariant (path : SourcePath) (lines : List String) :
    r.ClassInvariant path lines (r.DeclaresClass lines) where
  declare := by
    intro site text c hsite hc
    obtain ⟨head, hhead, hname, hbase, hline⟩ := classOf_declares site text c hc
    exact ⟨text, head, hline ▸ hsite.text, hhead, hname, hbase⟩
  body := fun _ hc => hc
  field := fun _ hc _ => hc
  method := by
    intro site access text c d m _ hc _ hd
    obtain ⟨ps, rfl⟩ := claimProperties_yields c m d hd
    exact hc

/-- The head of a class decodes to its name and its first base: one that is put together from a name and bases does,
and in one that is accepted every piece between commas outside brackets is a base. -/
theorem baseClass_of_bases (r : Reader) :
    (∀ h : ClassHead.Written, h.IsValid →
      ClassHead.read.eval h.text = .ok ⟨h.isStruct, [], String.ofList h.name, String.ofList h.first.2⟩) ∧
    (∀ text head u, ClassHead.read.eval text = .ok head → ClassHead.HasBases text u →
      ∃ B, ClassHead.IsBaseList (u.takeWhile (· ≠ '\x7b')) B
          (splitOutside typeBrackets 0 (u.takeWhile (· ≠ '\x7b'))) ∧ head.baseClass = String.ofList B) ∧
    ∀ path text h, r.read path text = .ok h → ∀ c ∈ h.classes, r.DeclaresClass (Text.lines text) c :=
  ⟨fun _ hh => hh.read, fun _ _ _ hread hu => ClassHead.baseClass_of_read hread hu,
    fun path _ _ hr => read_classes (declaresClass_invariant path _) hr⟩

theorem baseClass_of_bases_map :
    ClassHead.read.eval "class Unit final : public virtual Map<int, F(A, B)>, protected Base \x7b".toList =
        .ok ⟨false, [], "Unit", "Map<int, F(A, B)>"⟩ ∧
      (∃ B, ClassHead.IsBaseList " public virtual Map<int, F(A, B)>, protected Base ".toList B
          [" public virtual Map<int, F(A, B)>".toList, " protected Base ".toList] ∧
        "Map<int, F(A, B)>" = String.ofList B) ∧
      ∃ h, (Reader.ofSettings {}).read ⟨.relative, ["Unit.h"]⟩ "RClass()\nclass Unit : public Base \x7b\nRBody()" =
          .ok h ∧ h.classes.map (·.baseClass) = ["Base"] ∧
        ∀ c ∈ h.classes,
          (Reader.ofSettings {}).DeclaresClass ["RClass()", "class Unit : public Base \x7b", "RBody()"] c := by
  obtain ⟨hwritten, haccepted, hheader⟩ := baseClass_of_bases (Reader.ofSettings {})
  let w : ClassHead.Written := {
    gap := [' ']
    name := "Unit".toList
    final? := some [' ']
    colonGap := [' ']
    first := (" public virtual Map<int, F(A, B)>".toList, "Map<int, F(A, B)>".toList)
    others := [(" protected Base ".toList, "Base".toList)]
    behindBrace? := some [] }
  have htype : ∀ {B : List Char}, Lexer.IsWholeType B → B ≠ [] ∧ typeBrackets.Encloses isComma 0 B ∧ '\x7b' ∉ B ∧
      (∀ w ∈ ClassHead.baseWords, Lexer.dropWord? w B = none) → ClassHead.IsBaseType B := fun hwhole h =>
    ⟨h.1, hwhole, h.2.1, h.2.2.1, h.2.2.2⟩
  have hmap : ClassHead.IsBaseType "Map<int, F(A, B)>".toList :=
    htype (by unfold Lexer.IsWholeType; decide +kernel) (by decide)
  have hbase : ClassHead.IsBaseType "Base".toList :=
    htype (by unfold Lexer.IsWholeType; decide +kernel) (by decide)
  have hfirst : ClassHead.IsBase "Map<int, F(A, B)>".toList " public virtual Map<int, F(A, B)>".toList := by
    have hpiece : " public virtual Map<int, F(A, B)>".toList =
        [' '] ++ ("public".toList ++
          ([' '] ++ ("virtual".toList ++ ([' '] ++ ("Map<int, F(A, B)>".toList ++ []))))) := by
      decide
    rw [hpiece]
    exact .word rfl (by decide) (.of_isBlank rfl _) (.word rfl (by decide) (.of_isBlank rfl _) (.type hmap rfl rfl))
  have hsecond : ClassHead.IsBase "Base".toList " protected Base ".toList := by
    have hpiece : " protected Base ".toList = [' '] ++ ("protected".toList ++ ([' '] ++ ("Base".toList ++ [' ']))) := by
      decide
    rw [hpiece]
    exact .word rfl (by decide) (.of_isBlank rfl _) (.type hbase rfl rfl)
  have hw : w.IsValid := {
    gap := by decide
    name := ⟨by decide, by decide⟩
    final := fun u hu => Option.some.inj hu ▸ by decide
    colonGap := by decide
    first := hfirst
    others := List.forall_mem_singleton.mpr hsecond }
  have htext : "class Unit final : public virtual Map<int, F(A, B)>, protected Base \x7b".toList = w.text := by decide
  have hread : ClassHead.read.eval w.text = .ok ⟨false, [], "Unit", "Map<int, F(A, B)>"⟩ := by
    have heval := hwritten w hw
    rwa [String.ofList_toList, String.ofList_toList] at heval
  have hbases : ClassHead.HasBases w.text " public virtual Map<int, F(A, B)>, protected Base \x7b".toList := by
    obtain ⟨u, hu, hname⟩ := hw.readName
    refine ⟨_, _, hname, (trimLeft_blank_append hu _).trans ?_⟩
    decide
  refine ⟨htext ▸ hread, ?_, ?_⟩
  · have hlist := haccepted w.text _ _ hread hbases
    have htaken : (" public virtual Map<int, F(A, B)>, protected Base \x7b".toList.takeWhile (· ≠ '\x7b')) =
        " public virtual Map<int, F(A, B)>, protected Base ".toList := by decide
    have hpieces : splitOutside typeBrackets 0 " public virtual Map<int, F(A, B)>, protected Base ".toList =
        [" public virtual Map<int, F(A, B)>".toList, " protected Base ".toList] := by decide
    rwa [htaken, hpieces] at hlist
  · have hrun : ((Reader.ofSettings {}).read ⟨.relative, ["Unit.h"]⟩
        "RClass()\nclass Unit : public Base \x7b\nRBody()"
        |>.toOption.any fun h => h.classes.map (·.baseClass) == ["Base"]) = true := by
      rw [read_ofList]
      decide +kernel
    obtain ⟨h, hread, hrun⟩ := Checked.exists_ok_of_any hrun
    exact ⟨h, hread, eq_of_beq hrun, hheader _ _ h hread⟩

end Reader

end HeaderReflection
