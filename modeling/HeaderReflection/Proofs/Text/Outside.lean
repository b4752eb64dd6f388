import HeaderReflection.Proofs.Lexer.Crossing
import HeaderReflection.Text.Outside

/-! # Texts that are cut outside brackets

Lists of parameters and of bases are cut at their commas outside of brackets, where brackets of several kinds
are counted as one.

* A text has an effect on the count of open brackets (`BracketSet.behind`), and it encloses characters of a
  kind if none of them stands outside (`BracketSet.Encloses`).  Both are taken apart along a text that is put
  together.
* A text that encloses its commas is not cut (`splitOutside_of_encloses`), and level pieces are cut at the
  commas between them (`splitOutside_intercalate`).
* Blanks at the ends of a text stay with its outer pieces (`splitOutside_append`, `splitOutside_append_last`).
* The brackets of an expression are counted kind by kind instead.  Since each kind is closed behind it, what
  is significant of an expression encloses its commas and closes what it opens, all brackets counted as one
  (`Lexer.Settles.level`).

The count may go below zero, for instance in front of a bracket that closes nothing, so it is an integer.
Then a comma does not stand outside brackets either. -/

namespace HeaderReflection

namespace Text

/-! ### Blanks at the ends -/

section blank

variable {s w : List Char}

theorem trimLeft_blank_append (hw : isBlankText w = true) (s : List Char) : trimLeft (w ++ s) = trimLeft s :=
  List.dropWhile_append_of_pos (List.all_eq_true.mp hw)

theorem trimRight_append_blank (hw : isBlankText w = true) (s : List Char) : trimRight (s ++ w) = trimRight s := by
  have hblank : ∀ c ∈ w.reverse, isBlank c = true := fun c hc =>
    List.all_eq_true.mp hw c (List.mem_reverse.mp hc)
  unfold trimRight
  rw [List.reverse_append, List.dropWhile_append_of_pos hblank]

theorem trimLeft_eq_nil (hw : isBlankText w = true) : trimLeft w = [] := by
  have hall := trimLeft_blank_append hw []
  rwa [List.append_nil] at hall

theorem trim_blank_append (hw : isBlankText w = true) (s : List Char) : trim (w ++ s) = trim s :=
  congrArg trimRight (trimLeft_blank_append hw s)

theorem trim_append_blank (hw : isBlankText w = true) (s : List Char) : trim (s ++ w) = trim s := by
  unfold trim
  by_cases hs : trimLeft s = []
  · rw [TrailingComment.trimLeft_append_of_blank hs, trimLeft_eq_nil hw, hs]
  · rw [TrailingComment.trimLeft_append hs, trimRight_append_blank hw]

theorem exists_trim (s : List Char) :
    ∃ u v, s = u ++ (trim s ++ v) ∧ isBlankText u = true ∧ isBlankText v = true := by
  obtain ⟨u, hu, hublank⟩ := exists_trimLeft s
  obtain ⟨v, hv, hvblank⟩ := exists_trimRight (trimLeft s)
  refine ⟨u, v, ?_, List.all_eq_true.mpr hublank, List.all_eq_true.mpr hvblank⟩
  unfold trim
  rw [← hv]
  exact hu

theorem trim_trim (s : List Char) : trim (trim s) = trim s := by
  obtain ⟨u, v, hs, hu, hv⟩ := exists_trim s
  have htrim := congrArg trim hs
  rw [trim_blank_append hu, trim_append_blank hv] at htrim
  exact htrim.symm

theorem trimLeft_trim (s : List Char) : trimLeft (trim s) = trim s := by
  obtain ⟨v, hv, -⟩ := exists_trimRight (trimLeft (trim s))
  have hbehind : trimLeft (trim s) = trim s ++ v := hv.trans (congrArg (· ++ v) (trim_trim s))
  have hle := length_trimLeft_le (trim s)
  rw [hbehind, List.length_append] at hle
  obtain rfl : v = [] := List.eq_nil_of_length_eq_zero (by omega)
  rw [hbehind, List.append_nil]

theorem trim_ne_nil (hs : isBlankText s = false) : trim s ≠ [] := by
  intro hnil
  obtain ⟨u, v, hends, hu, hv⟩ := exists_trim s
  rw [hnil, List.nil_append] at hends
  rw [hends, Lexer.isBlankText_append hu hv] at hs
  cases hs

theorem trimLeft_ne_nil (hs : isBlankText s = false) : trimLeft s ≠ [] := fun hnil =>
  trim_ne_nil hs (congrArg trimRight hnil)

theorem count_trim {c : Char} (hc : isBlank c = false) (s : List Char) : (trim s).count c = s.count c := by
  have hnone : ∀ {w : List Char}, isBlankText w = true → w.count c = 0 := by
    intro w hw
    refine List.count_eq_zero.mpr fun hmem => ?_
    rw [List.all_eq_true.mp hw c hmem] at hc
    cases hc
  obtain ⟨u, v, hs, hu, hv⟩ := exists_trim s
  have hcount := congrArg (List.count c) hs
  rw [List.count_append, List.count_append, hnone hu, hnone hv] at hcount
  omega

end blank

/-! ### Counting brackets -/

namespace BracketSet

variable {b : BracketSet} {stop : Char → Bool} {depth : Int} {c : Char} {s t : List Char}

/-- The count of open brackets behind a text. -/
def behind (b : BracketSet) (depth : Int) (s : List Char) : Int := s.foldl b.after depth

/-- Every character that satisfies `stop` stands inside brackets. -/
def Encloses (b : BracketSet) (stop : Char → Bool) (depth : Int) (s : List Char) : Prop :=
  ∀ u c v, s = u ++ c :: v → stop c = true → b.behind depth u ≠ 0

theorem Encloses.mono {stop' : Char → Bool} (h : b.Encloses stop' depth s)
    (hstop : ∀ c, stop c = true → stop' c = true) : b.Encloses stop depth s :=
  fun u c v hs hc => h u c v hs (hstop c hc)

theorem behind_append (b : BracketSet) (depth : Int) (s t : List Char) :
    b.behind depth (s ++ t) = b.behind (b.behind depth s) t := List.foldl_append

theorem encloses_nil : b.Encloses stop depth [] := by
  intro u c v h
  cases u with
  | nil => cases h
  | cons d u => cases h

theorem encloses_cons :
    b.Encloses stop depth (c :: s) ↔ (stop c = true → depth ≠ 0) ∧ b.Encloses stop (b.after depth c) s := by
  constructor
  · intro h
    exact ⟨h [] c s rfl, fun u d v hs => h (c :: u) d v (by rw [hs]; rfl)⟩
  · rintro ⟨hc, hs⟩ u d v h
    cases u with
    | nil =>
        obtain ⟨rfl, -⟩ := List.cons.inj h
        exact hc
    | cons e u =>
        obtain ⟨rfl, htail⟩ := List.cons.inj h
        exact hs u d v htail

theorem encloses_append :
    b.Encloses stop depth (s ++ t) ↔ b.Encloses stop depth s ∧ b.Encloses stop (b.behind depth s) t := by
  induction s generalizing depth with
  | nil => exact ⟨fun h => ⟨encloses_nil, h⟩, fun h => h.2⟩
  | cons c s ih => rw [List.cons_append, encloses_cons, encloses_cons, ih, and_assoc]; rfl

/-- Where a character stands outside brackets, there is a first one. -/
theorem exists_outside (h : ¬b.Encloses stop depth s) :
    ∃ u c v, s = u ++ c :: v ∧ stop c = true ∧ b.Encloses stop depth u ∧ b.behind depth u = 0 := by
  induction s generalizing depth with
  | nil => exact absurd encloses_nil h
  | cons c s ih =>
      by_cases hc : stop c = true → depth ≠ 0
      · obtain ⟨u, d, v, rfl, hd, hu, hdepth⟩ := ih fun hs => h (encloses_cons.mpr ⟨hc, hs⟩)
        exact ⟨c :: u, d, v, rfl, hd, encloses_cons.mpr ⟨hc, hu⟩, hdepth⟩
      · obtain ⟨hc, hdepth⟩ := Classical.not_imp.mp hc
        exact ⟨[], c, s, rfl, hc, encloses_nil, Decidable.not_not.mp hdepth⟩

theorem behind_filter {p : Char → Bool} (hp : ∀ c depth, p c = false → b.after depth c = depth) :
    b.behind depth (s.filter p) = b.behind depth s := by
  induction s generalizing depth with
  | nil => rfl
  | cons c s ih =>
      cases hc : p c with
      | true =>
          rw [List.filter_cons_of_pos hc]
          exact ih
      | false =>
          rw [List.filter_cons_of_neg (by simp [hc]), ih]
          exact (congrArg (b.behind · s) (hp c depth hc)).symm

theorem encloses_filter {p : Char → Bool} (hp : ∀ c depth, p c = false → b.after depth c = depth)
    (hstop : ∀ c, p c = false → stop c = false) :
    b.Encloses stop depth (s.filter p) ↔ b.Encloses stop depth s := by
  induction s generalizing depth with
  | nil => exact Iff.rfl
  | cons c s ih =>
      cases hc : p c with
      | true => rw [List.filter_cons_of_pos hc, encloses_cons, encloses_cons, ih]
      | false =>
          rw [List.filter_cons_of_neg (by simp [hc]), encloses_cons, hp c depth hc, hstop c hc, ih]
          simp

end BracketSet

open BracketSet

variable {b : BracketSet} {stop : Char → Bool} {depth : Int} {s t : List Char}

/-! ### Cutting -/

theorem cutOutside?_append (h : b.Encloses stop depth s) :
    cutOutside? b stop depth (s ++ t) =
      (cutOutside? b stop (b.behind depth s) t).map fun p => (s ++ p.1, p.2) := by
  induction s generalizing depth with
  | nil => exact (Option.map_id' ..).symm
  | cons c s ih =>
      obtain ⟨hc, hs⟩ := encloses_cons.mp h
      have hgoes : ¬(stop c && depth == 0) = true := by
        intro hstop
        obtain ⟨hc', hdepth⟩ := Bool.and_eq_true_iff.mp hstop
        exact hc hc' (eq_of_beq hdepth)
      rw [List.cons_append, cutOutside?, if_neg hgoes, ih hs, Option.map_map]
      rfl

theorem cutOutside?_eq_none (h : b.Encloses stop depth s) : cutOutside? b stop depth s = none := by
  have hwhole := cutOutside?_append (t := []) h
  rwa [List.append_nil] at hwhole

theorem encloses_iff_of_cutOutside? : cutOutside? b stop depth s = none ↔ b.Encloses stop depth s := by
  refine ⟨fun h => ?_, cutOutside?_eq_none⟩
  refine Classical.byContradiction fun hcut => ?_
  obtain ⟨u, c, v, rfl, hc, hu, hdepth⟩ := exists_outside hcut
  rw [cutOutside?_append hu, hdepth, cutOutside?, if_pos (by simp [hc])] at h
  cases h

instance : Decidable (b.Encloses stop depth s) := decidable_of_iff _ encloses_iff_of_cutOutside?

theorem cutOutside?_outside {c : Char} (hs : b.Encloses stop depth s) (hdepth : b.behind depth s = 0)
    (hc : stop c = true) : cutOutside? b stop depth (s ++ c :: t) = some (s, c, t) := by
  have hcut : cutOutside? b stop 0 (c :: t) = some ([], c, t) := by
    rw [cutOutside?, if_pos (by simp [hc])]
  rw [cutOutside?_append hs, hdepth, hcut]
  simp

/-! ### Pieces -/

/-- Puts a text in front of the first piece. -/
def prependPiece (s : List Char) : List (List Char) → List (List Char)
  | [] => [s]
  | p :: ps => (s ++ p) :: ps

/-- The commas that take part. -/
def isComma (c : Char) : Bool := c == ','

theorem splitOutside_append (h : b.Encloses isComma depth s) :
    splitOutside b depth (s ++ t) = prependPiece s (splitOutside b (b.behind depth s) t) := by
  induction s generalizing depth with
  | nil =>
      cases hps : splitOutside b depth t with
      | nil => exact absurd hps (splitOutside_ne_nil b depth t)
      | cons p ps =>
          show splitOutside b depth t = prependPiece [] (splitOutside b depth t)
          rw [hps]
          rfl
  | cons c s ih =>
      obtain ⟨hc, hs⟩ := encloses_cons.mp h
      have hgoes : ¬(c = ',' ∧ depth = 0) := fun ⟨hcomma, hdepth⟩ => hc (by rw [hcomma]; rfl) hdepth
      have hrest := ih hs
      rw [List.cons_append, splitOutside, if_neg hgoes, hrest]
      show _ = prependPiece (c :: s) (splitOutside b (b.behind (b.after depth c) s) t)
      cases splitOutside b (b.behind (b.after depth c) s) t with
      | nil => rfl
      | cons p ps => rfl

theorem splitOutside_of_encloses (h : b.Encloses isComma depth s) : splitOutside b depth s = [s] := by
  have hwhole := splitOutside_append (t := []) h
  rw [List.append_nil] at hwhole
  rw [hwhole]
  exact congrArg (· :: []) (List.append_nil s)

theorem splitOutside_comma (t : List Char) : splitOutside b 0 (',' :: t) = [] :: splitOutside b 0 t := by
  rw [splitOutside, if_pos ⟨rfl, rfl⟩]

/-- The pieces enclose their commas, and those in front of others close what they open. -/
structure BracketSet.AreLevel (b : BracketSet) (ps : List (List Char)) : Prop where
  encloses : ∀ p ∈ ps, b.Encloses isComma 0 p
  closes : ∀ p ∈ ps.dropLast, b.behind 0 p = 0

/-- Level pieces with commas between them are cut at these commas. -/
theorem splitOutside_intercalate {ps : List (List Char)} (h : b.AreLevel ps) (hne : ps ≠ []) :
    splitOutside b 0 ([','].intercalate ps) = ps := by
  induction ps with
  | nil => exact absurd rfl hne
  | cons p ps ih =>
      obtain ⟨hp, hps⟩ := List.forall_mem_cons.mp h.encloses
      cases ps with
      | nil =>
          have hwhole : [','].intercalate [p] = p := List.append_nil p
          rw [hwhole]
          exact splitOutside_of_encloses hp
      | cons q ps =>
          obtain ⟨hclosed, hcloses⟩ := List.forall_mem_cons.mp h.closes
          have hwhole : [','].intercalate (p :: q :: ps) = p ++ ',' :: [','].intercalate (q :: ps) := rfl
          rw [hwhole, splitOutside_append hp, hclosed, splitOutside_comma, ih ⟨hps, hcloses⟩ (List.cons_ne_nil q ps)]
          exact congrArg (· :: _) (List.append_nil p)

/-- If the first piece has as many commas as what the text begins with, no comma of the latter stands outside
brackets, and one behind it does. -/
theorem encloses_of_count {w : List Char} {ps : List (List Char)} (h : splitOutside b depth (s ++ t) = w :: ps)
    (hcount : w.count ',' = s.count ',') :
    b.Encloses isComma depth s ∧ ∀ v, t = ',' :: v → b.behind depth s = 0 := by
  have hencloses : b.Encloses isComma depth s := by
    refine Classical.byContradiction fun hcut => ?_
    obtain ⟨u, c, v, rfl, hc, hu, hdepth⟩ := exists_outside hcut
    obtain rfl := eq_of_beq hc
    rw [List.append_assoc, splitOutside_append hu, hdepth, List.cons_append, splitOutside_comma] at h
    obtain ⟨rfl, -⟩ := List.cons.inj h
    simp only [List.append_nil, List.count_append, List.count_cons_self] at hcount
    omega
  refine ⟨hencloses, ?_⟩
  rintro v rfl
  refine Classical.byContradiction fun hdepth => ?_
  rw [splitOutside_append hencloses, splitOutside, if_neg fun hout => hdepth hout.2] at h
  have hfirst : ∃ x, w = s ++ ',' :: x := by
    split at h
    · exact ⟨_, (List.cons.inj h).1.symm⟩
    · exact ⟨_, (List.cons.inj h).1.symm⟩
  obtain ⟨x, rfl⟩ := hfirst
  rw [List.count_append, List.count_cons_self] at hcount
  omega

theorem splitOutside_append_last {w : List Char} (hw : ∀ depth, b.Encloses isComma depth w) (depth : Int)
    (s : List Char) : ∃ ps p, splitOutside b depth s = ps ++ [p] ∧ splitOutside b depth (s ++ w) = ps ++ [p ++ w] := by
  induction s generalizing depth with
  | nil => exact ⟨[], [], rfl, splitOutside_of_encloses (hw depth)⟩
  | cons c s ih =>
      rw [List.cons_append, splitOutside, splitOutside]
      split
      · obtain ⟨ps, p, hs, hsw⟩ := ih depth
        exact ⟨[] :: ps, p, by rw [hs]; rfl, by rw [hsw]; rfl⟩
      · obtain ⟨ps, p, hs, hsw⟩ := ih (b.after depth c)
        rw [hs, hsw]
        cases ps with
        | nil => exact ⟨[], c :: p, rfl, rfl⟩
        | cons q ps => exact ⟨(c :: q) :: ps, p, rfl, rfl⟩

/-! ### Brackets of all kinds -/

section allBrackets

open BracketMark

theorem after_opener (k : Bracket) (depth : Int) : allBrackets.after depth k.opener = depth + 1 := by
  cases k
  all_goals rfl

theorem after_closer (k : Bracket) (depth : Int) : allBrackets.after depth k.closer = depth - 1 := by
  cases k
  all_goals rfl

theorem ofChar?_eq_none {c : Char} (hopener : ∀ b : Bracket, c ≠ b.opener) (hcloser : ∀ b : Bracket, c ≠ b.closer) :
    ofChar? c = none := by
  have hopens : Bracket.ofOpener? c = none := by
    refine Option.eq_none_iff_forall_not_mem.mpr fun b hb => ?_
    have heq : b.opener = c := by simpa using List.find?_some hb
    exact hopener b heq.symm
  have hcloses : Bracket.ofCloser? c = none := by
    refine Option.eq_none_iff_forall_not_mem.mpr fun b hb => ?_
    have heq : b.closer = c := by simpa using List.find?_some hb
    exact hcloser b heq.symm
  unfold ofChar?
  rw [hopens, hcloses]

theorem after_other {c : Char} (hc : ofChar? c = none) (depth : Int) : allBrackets.after depth c = depth := by
  have hopener : ∀ d ∈ allBrackets.openers, ofChar? d ≠ none := by decide
  have hcloser : ∀ d ∈ allBrackets.closers, ofChar? d ≠ none := by decide
  unfold BracketSet.after
  rw [if_neg, if_neg]
  · exact fun h => hcloser c (by simpa using h) hc
  · exact fun h => hopener c (by simpa using h) hc

theorem level_of_forall (hs : ∀ c ∈ s, ofChar? c = none ∧ stop c = false) :
    allBrackets.Encloses stop depth s ∧ allBrackets.behind depth s = depth := by
  induction s with
  | nil => exact ⟨encloses_nil, rfl⟩
  | cons c s ih =>
      obtain ⟨⟨hc, hstop⟩, hs⟩ := List.forall_mem_cons.mp hs
      obtain ⟨henclosed, hbehind⟩ := ih hs
      refine ⟨encloses_cons.mpr ⟨fun h => absurd (h.symm.trans hstop) Bool.noConfusion, ?_⟩, ?_⟩
      · rw [after_other hc]
        exact henclosed
      · show allBrackets.behind (allBrackets.after depth c) s = depth
        rw [after_other hc]
        exact hbehind

end allBrackets

end Text

/-! ### Expressions -/

namespace Depths

/-- The number of open brackets of all kinds. -/
def total (d : Depths) : Int := d.round + d.square + d.curly + d.angle

theorem total_opened (d : Depths) (b : Bracket) : (d.opened b).total = d.total + 1 := by
  cases b
  all_goals
    simp only [total, opened, set, of]
    omega

theorem total_closed {d e : Depths} {b : Bracket} (h : d.closed? b = some e) : e.total = d.total - 1 := by
  unfold closed? at h
  split at h
  · cases h
  · rename_i hopen
    obtain rfl := Option.some.inj h
    cases b
    all_goals
      simp only [of] at hopen
      simp only [total, set, of]
      omega

theorem isZero_of_total {d : Depths} (h : d.total = 0) : d.isZero = true := by
  refine (isZero_iff d).mpr fun b => ?_
  unfold total at h
  cases b
  all_goals
    simp only [of]
    omega

end Depths

namespace Lexer

open Text BracketSet

/-- A text that settles encloses its commas and closes what is open. -/
theorem Settles.level {d : Depths} {s : List Char} (h : Settles d s) :
    allBrackets.Encloses isComma d.total s ∧ allBrackets.behind d.total s = 0 := by
  induction h with
  | nil => exact ⟨encloses_nil, rfl⟩
  | @opens d b s _ ih =>
      rw [Depths.total_opened, ← after_opener b] at ih
      refine ⟨encloses_cons.mpr ⟨fun hcomma => ?_, ih.1⟩, ih.2⟩
      revert hcomma
      cases b
      all_goals simp [Bracket.opener, isComma]
  | @closes d e b s hb _ ih =>
      rw [Depths.total_closed hb, ← after_closer b] at ih
      refine ⟨encloses_cons.mpr ⟨fun hcomma => ?_, ih.1⟩, ih.2⟩
      revert hcomma
      cases b
      all_goals simp [Bracket.closer, isComma]
  | @other d c s hc hends _ ih =>
      refine ⟨encloses_cons.mpr ⟨fun hcomma hzero => ?_, ?_⟩, ?_⟩
      · have hgoes := hends (Depths.isZero_of_total hzero)
        rw [eq_of_beq hcomma] at hgoes
        cases hgoes
      · rw [after_other hc]
        exact ih.1
      · show allBrackets.behind (allBrackets.after d.total c) s = 0
        rw [after_other hc]
        exact ih.2

end Lexer

end HeaderReflection
