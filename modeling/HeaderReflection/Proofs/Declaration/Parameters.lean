import HeaderReflection.Declaration.Parameter
import HeaderReflection.Proofs.Source.TrailingComments
import HeaderReflection.Proofs.Text.Outside

/-! # Parameters as they are written

A list of parameters is written parameter by parameter, `T N` or `T N = I`, with commas between them
(`Parameter.Written`).  To read it, it is cut at commas outside of brackets, where brackets of all kinds count
as one and quotes mean nothing.  This module says which lists survive that.

* A single piece is read back whatever its default argument is (`IsValid.ofPiece_text`), since only the first
  `=` outside of brackets matters and types have none there.
* A list is read back exactly if the default arguments enclose their commas and, up to the last, close what
  they open (`IsLevel`, `Parameter.ofList_written`).  In one direction, a first parameter that is read back
  leaves a default argument that is level (`IsValid.level_of_first`); the rest of the list follows by
  induction.
* Default arguments are level if none of their brackets and commas stands in a literal or in an operator
  (`IsPlain`), since an expression closes what it opens.
* A comma in a literal cuts the list (`Parameter.ofList_comma_in_literal`). -/

namespace HeaderReflection

open Text BracketSet

namespace Parameter

/-- A parameter as it is written, `T N` or `T N = I`. -/
structure Written where
  type : List Char
  name : List Char
  /-- The default argument, empty if there is none. -/
  initializer : List Char := []

namespace Written

variable {p : Written} {ps : List Written}

/-- The text in front of a default argument and its `=`. -/
def declarator (p : Written) : List Char := p.type ++ ' ' :: p.name

/-- The text in front of a default argument. -/
def head (p : Written) : List Char := p.declarator ++ if p.initializer.isEmpty then [] else " = ".toList

/-- The text of a parameter. -/
def text (p : Written) : List Char := p.head ++ p.initializer

/-- The parameter that is meant. -/
def parameter (p : Written) : Parameter :=
  ⟨String.ofList p.name, String.ofList (trim p.type), String.ofList (trim p.initializer)⟩

/-- The text of a list of parameters. -/
def list (ps : List Written) : List Char := ", ".toList.intercalate (ps.map text)

/-- Characters that end the type of a parameter outside brackets. -/
def endsType (c : Char) : Bool := c == ',' || c == '='

/-- The type is balanced and holds no comma and no `=` outside brackets, the name is an identifier, and the default
argument is an expression and nothing else. -/
structure IsValid (p : Written) : Prop where
  visible : isBlankText p.type = false
  encloses : allBrackets.Encloses endsType 0 p.type
  balanced : allBrackets.behind 0 p.type = 0
  name : isIdentifier p.name = true
  expression : p.initializer ≠ [] → ∃ a, Lexer.expression.answer p.initializer = (.ok a, [])

/-- The default arguments enclose their commas, and those in front of others close what they open. -/
structure IsLevel (ps : List Written) : Prop where
  encloses : ∀ p ∈ ps, allBrackets.Encloses isComma 0 p.initializer
  closes : ∀ p ∈ ps.dropLast, allBrackets.behind 0 p.initializer = 0

/-- Brackets and commas. -/
def isCounted (c : Char) : Bool := (BracketMark.ofChar? c).isSome || isComma c

/-- No bracket and no comma of the default argument stands in a literal or in an operator. -/
def IsPlain (p : Written) : Prop :=
  p.initializer.filter isCounted = (Lexer.significant 0 p.initializer).filter isCounted

end Written

/-! ### One piece -/

section piece

variable {s u v w T N : List Char}

/-- The character in front of a default argument. -/
def isAssignment (c : Char) : Bool := c == '='

/-- The parameter of a declarator and a default argument. -/
def ofDeclarator (declarator initializer : List Char) : Parameter :=
  let r := (trim declarator).reverse
  let name := String.ofList (r.takeWhile isNameChar).reverse
  let type := String.ofList (trim (r.dropWhile isNameChar).reverse)
  let initializer := String.ofList (trim initializer)
  if type.isEmpty then ⟨"", name, initializer⟩ else ⟨name, type, initializer⟩

theorem ofPiece_of_encloses (h : allBrackets.Encloses isAssignment 0 s) : ofPiece s = ofDeclarator s [] := by
  have hcut : cutOutside? allBrackets (· == '=') 0 s = none := cutOutside?_eq_none h
  unfold ofPiece splitInitializer
  rw [hcut]
  rfl

theorem ofPiece_assignment (hu : allBrackets.Encloses isAssignment 0 u) (hdepth : allBrackets.behind 0 u = 0)
    (v : List Char) : ofPiece (u ++ '=' :: v) = ofDeclarator u v := by
  have hcut : cutOutside? allBrackets (· == '=') 0 (u ++ '=' :: v) = some (u, '=', v) :=
    cutOutside?_outside hu hdepth rfl
  unfold ofPiece splitInitializer
  rw [hcut]
  rfl

theorem ofDeclarator_congr (hdeclarator : trim s = trim u) (hinitializer : trim v = trim w) :
    ofDeclarator s v = ofDeclarator u w := by
  unfold ofDeclarator
  rw [hdeclarator, hinitializer]

/-- Characters that are neither counted nor cut at. -/
def isOrdinary (c : Char) : Bool := !("([<\x7b)]>\x7d,=".toList.contains c)

theorem isOrdinary_of_forall {p : Char → Bool} (hp : ∀ d ∈ "([<\x7b)]>\x7d,=".toList, p d = false) {c : Char}
    (hc : p c = true) : isOrdinary c = true := by
  refine Bool.not_eq_true' _ ▸ Bool.eq_false_iff.mpr fun hmem => ?_
  rw [hp c (List.contains_iff_mem.mp hmem)] at hc
  cases hc

theorem isOrdinary_of_isBlank {c : Char} (hc : isBlank c = true) : isOrdinary c = true :=
  isOrdinary_of_forall (by decide) hc

theorem isOrdinary_of_isIdentifierChar {c : Char} (hc : isIdentifierChar c = true) : isOrdinary c = true :=
  isOrdinary_of_forall (by decide) hc

theorem endsType_of_isComma (c : Char) (hc : isComma c = true) : Written.endsType c = true :=
  Bool.or_eq_true_iff.mpr (.inl hc)

theorem endsType_of_isAssignment (c : Char) (hc : isAssignment c = true) : Written.endsType c = true :=
  Bool.or_eq_true_iff.mpr (.inr hc)

theorem level_of_isOrdinary {stop : Char → Bool} (hstop : ∀ c, stop c = true → Written.endsType c = true)
    (hs : ∀ c ∈ s, isOrdinary c = true) (depth : Int) :
    allBrackets.Encloses stop depth s ∧ allBrackets.behind depth s = depth := by
  refine level_of_forall fun c hc => ?_
  have hnone : ∀ d ∈ "([<\x7b)]>\x7d,=".toList, c ≠ d := by
    rintro d hd rfl
    have hordinary := hs c hc
    rw [isOrdinary, List.contains_iff_mem.mpr hd] at hordinary
    cases hordinary
  refine ⟨ofChar?_eq_none (fun b => hnone _ ?_) fun b => hnone _ ?_, ?_⟩
  · cases b
    all_goals decide
  · cases b
    all_goals decide
  · refine Bool.eq_false_iff.mpr fun hc => ?_
    rcases Bool.or_eq_true_iff.mp (hstop c hc) with h | h
    · exact hnone ',' (by decide) (eq_of_beq h)
    · exact hnone '=' (by decide) (eq_of_beq h)

theorem level_of_isBlankText {stop : Char → Bool} (hstop : ∀ c, stop c = true → Written.endsType c = true)
    (hw : isBlankText w = true) (depth : Int) :
    allBrackets.Encloses stop depth w ∧ allBrackets.behind depth w = depth :=
  level_of_isOrdinary hstop (fun c hc => isOrdinary_of_isBlank (List.all_eq_true.mp hw c hc)) depth

theorem forall_of_isIdentifier (hN : isIdentifier N = true) : ∀ c ∈ N, isIdentifierChar c = true := by
  cases N with
  | nil => cases hN
  | cons c N =>
      obtain ⟨hc, hN⟩ := Bool.and_eq_true_iff.mp hN
      exact List.forall_mem_cons.mpr ⟨isIdentifierChar_of_isIdentifierStart hc, List.all_eq_true.mp hN⟩

theorem isNameChar_of_isIdentifierChar {c : Char} (hc : isIdentifierChar c = true) : isNameChar c = true := by
  unfold isIdentifierChar at hc
  unfold isNameChar isAlphanumeric
  split
  · exact hc
  · rename_i hascii
    refine absurd ?_ hascii
    simp only [isAsciiAlphanumeric, Bool.or_eq_true, Bool.and_eq_true, beq_iff_eq, decide_eq_true_eq, Char.le_def,
      UInt32.le_iff_toNat_le] at hc
    rcases hc with hletter | rfl
    · simp only [Char.toNat]
      simp at hletter
      omega
    · decide

/-- Blanks at the ends of a piece do not matter. -/
theorem ofPiece_blanks (hu : isBlankText u = true) (hv : isBlankText v = true) (s : List Char) :
    ofPiece (u ++ (s ++ v)) = ofPiece s := by
  have hfront : ∀ x : List Char, trim (u ++ (x ++ v)) = trim x := by
    intro x
    rw [trim_blank_append hu, trim_append_blank hv]
  obtain ⟨huencloses, hudepth⟩ := level_of_isBlankText endsType_of_isAssignment hu 0
  by_cases hs : allBrackets.Encloses isAssignment 0 s
  · have hwhole : allBrackets.Encloses isAssignment 0 (u ++ (s ++ v)) := by
      rw [encloses_append, encloses_append, hudepth]
      exact ⟨huencloses, hs, (level_of_isBlankText endsType_of_isAssignment hv _).1⟩
    rw [ofPiece_of_encloses hwhole, ofPiece_of_encloses hs]
    exact ofDeclarator_congr (hfront s) rfl
  · obtain ⟨x, c, y, rfl, hc, hx, hdepth⟩ := exists_outside hs
    obtain rfl := eq_of_beq hc
    have hbefore : allBrackets.Encloses isAssignment 0 (u ++ x) := by
      rw [encloses_append, hudepth]
      exact ⟨huencloses, hx⟩
    have hbehind : allBrackets.behind 0 (u ++ x) = 0 := by
      rw [behind_append, hudepth, hdepth]
    have hpiece : u ++ ((x ++ '=' :: y) ++ v) = (u ++ x) ++ '=' :: (y ++ v) := by simp
    rw [hpiece, ofPiece_assignment hbefore hbehind, ofPiece_assignment hx hdepth]
    exact ofDeclarator_congr (trim_blank_append hu x) (trim_append_blank hv y)

theorem ofDeclarator_written (hT : isBlankText T = false) (hN : isIdentifier N = true) (w : List Char) :
    ofDeclarator (T ++ ' ' :: N) w = ⟨String.ofList N, String.ofList (trim T), String.ofList (trim w)⟩ := by
  have hchars := forall_of_isIdentifier hN
  have hne := trimLeft_ne_nil hT
  have htrim : trim (T ++ ' ' :: N) = trimLeft T ++ ' ' :: N := by
    unfold trim
    rw [TrailingComment.trimLeft_append hne]
    rcases List.eq_nil_or_concat N with rfl | ⟨M, c, rfl⟩
    · cases hN
    · have hvisible : isBlank c = false := by
        refine Bool.eq_false_iff.mpr fun hblank => ?_
        have hword := hchars c (by simp)
        rw [Lexer.isIdentifierChar_of_isBlank hblank] at hword
        cases hword
      have hlast := trimRight_append_cons hvisible (trimLeft T ++ ' ' :: M) []
      simpa using hlast
  have hname : ∀ c ∈ N.reverse, isNameChar c = true := fun c hc =>
    isNameChar_of_isIdentifierChar (hchars c (List.mem_reverse.mp hc))
  have hreverse : (trimLeft T ++ ' ' :: N).reverse = N.reverse ++ ' ' :: (trimLeft T).reverse := by simp
  have htype : trim (trimLeft T ++ [' ']) = trim T := by
    rw [trim_append_blank (by decide)]
    exact congrArg trimRight (trimLeft_trimLeft T)
  have htake : (N.reverse ++ ' ' :: (trimLeft T).reverse).takeWhile isNameChar = N.reverse := by
    rw [List.takeWhile_append_of_pos hname, List.takeWhile_cons_of_neg (by decide), List.append_nil]
  have hdrop : (N.reverse ++ ' ' :: (trimLeft T).reverse).dropWhile isNameChar = ' ' :: (trimLeft T).reverse := by
    rw [List.dropWhile_append_of_pos hname, List.dropWhile_cons_of_neg (by decide)]
  have hvisible : (String.ofList (trim T)).isEmpty = false := by
    refine Bool.eq_false_iff.mpr fun hempty => ?_
    have hnil := congrArg String.toList (String.isEmpty_iff.mp hempty)
    rw [String.toList_ofList] at hnil
    exact trim_ne_nil hT hnil
  unfold ofDeclarator
  dsimp only
  rw [htrim, hreverse, htake, hdrop, List.reverse_reverse, List.reverse_cons, List.reverse_reverse, htype, hvisible]
  rfl

/-! ### Lists of pieces -/

theorem map_ofPiece_blanks (hu : isBlankText u = true) (hv : isBlankText v = true) (s : List Char) :
    (splitOutside allBrackets 0 (u ++ (s ++ v))).map ofPiece = (splitOutside allBrackets 0 s).map ofPiece := by
  obtain ⟨huencloses, hudepth⟩ := level_of_isBlankText endsType_of_isComma hu 0
  obtain ⟨ps, p, hs, hsv⟩ := splitOutside_append_last (fun depth =>
    (level_of_isBlankText endsType_of_isComma hv depth).1) 0 s
  rw [splitOutside_append huencloses, hudepth, hs, hsv]
  cases ps with
  | nil => exact congrArg (· :: []) (ofPiece_blanks hu hv p)
  | cons q ps =>
      have hq : ofPiece (u ++ q) = ofPiece q := by
        have hblanks := ofPiece_blanks hu (v := []) rfl q
        rwa [List.append_nil] at hblanks
      have hp : ofPiece (p ++ v) = ofPiece p := ofPiece_blanks (u := []) rfl hv p
      show ofPiece (u ++ q) :: (ps ++ [p ++ v]).map ofPiece = ofPiece q :: (ps ++ [p]).map ofPiece
      rw [hq, List.map_append, List.map_append, List.map_singleton, List.map_singleton, hp]

theorem ofList_of_visible (hne : trim s ≠ []) (hvoid : trim s ≠ "void".toList) :
    ofList s = (splitOutside allBrackets 0 s).map ofPiece := by
  obtain ⟨u, v, hs, hu, hv⟩ := exists_trim s
  have htrimmed := map_ofPiece_blanks hu hv (trim s)
  rw [← hs] at htrimmed
  unfold ofList
  dsimp only
  have hkept : ¬((trim s).isEmpty || trim s == "void".toList) = true := by
    rw [Bool.or_eq_true, not_or, List.isEmpty_iff, beq_iff_eq]
    exact ⟨hne, hvoid⟩
  rw [if_neg hkept]
  exact htrimmed.symm

end piece

/-! ### Lists that are written -/

namespace Written

variable {p q : Written} {ps : List Written} {s : List Char}

theorem list_singleton (p : Written) : list [p] = p.head ++ p.initializer := List.append_nil _

theorem list_cons_cons (p q : Written) (ps : List Written) :
    list (p :: q :: ps) = p.head ++ (p.initializer ++ ',' :: ' ' :: list (q :: ps)) := by
  have hsplit : list (p :: q :: ps) = (p.head ++ p.initializer) ++ (", ".toList ++ list (q :: ps)) := rfl
  rw [hsplit, List.append_assoc]
  rfl

theorem IsValid.declarator_level (h : p.IsValid) {stop : Char → Bool}
    (hstop : ∀ c, stop c = true → endsType c = true) :
    allBrackets.Encloses stop 0 p.declarator ∧ allBrackets.behind 0 p.declarator = 0 := by
  have hordinary : ∀ c ∈ ' ' :: p.name, isOrdinary c = true :=
    List.forall_mem_cons.mpr ⟨by decide, fun c hc =>
      isOrdinary_of_isIdentifierChar (forall_of_isIdentifier h.name c hc)⟩
  obtain ⟨hencloses, hbehind⟩ := level_of_isOrdinary hstop hordinary 0
  unfold declarator
  rw [encloses_append, behind_append, h.balanced]
  exact ⟨⟨h.encloses.mono hstop, hencloses⟩, hbehind⟩

theorem IsValid.head_level (h : p.IsValid) :
    allBrackets.Encloses isComma 0 p.head ∧ allBrackets.behind 0 p.head = 0 := by
  obtain ⟨hencloses, hbehind⟩ := h.declarator_level endsType_of_isComma
  unfold head
  split
  · rw [List.append_nil]
    exact ⟨hencloses, hbehind⟩
  · have hassignment : allBrackets.Encloses isComma 0 " = ".toList ∧ allBrackets.behind 0 " = ".toList = 0 :=
      level_of_forall (by decide)
    rw [encloses_append, behind_append, hbehind]
    exact ⟨⟨hencloses, hassignment.1⟩, hassignment.2⟩

theorem IsValid.ofPiece_head (h : p.IsValid) (hne : p.initializer ≠ []) (s : List Char) :
    ofPiece (p.head ++ s) = ⟨String.ofList p.name, String.ofList (trim p.type), String.ofList (trim s)⟩ := by
  obtain ⟨hencloses, hbehind⟩ := h.declarator_level endsType_of_isAssignment
  have hspace : allBrackets.Encloses isAssignment 0 [' '] ∧ allBrackets.behind 0 [' '] = 0 :=
    level_of_forall (by decide)
  have hfront : allBrackets.Encloses isAssignment 0 (p.declarator ++ [' ']) := by
    rw [encloses_append, hbehind]
    exact ⟨hencloses, hspace.1⟩
  have hclosed : allBrackets.behind 0 (p.declarator ++ [' ']) = 0 := by
    rw [behind_append, hbehind, hspace.2]
  have hpiece : p.head ++ s = (p.declarator ++ [' ']) ++ '=' :: ' ' :: s := by
    unfold head
    rw [if_neg (by simpa using hne)]
    simp
  rw [hpiece, ofPiece_assignment hfront hclosed]
  refine (ofDeclarator_congr (trim_append_blank (by decide) _) (trim_blank_append (w := [' ']) (by decide) s)).trans ?_
  exact ofDeclarator_written h.visible h.name s

theorem IsValid.ofPiece_text (h : p.IsValid) : ofPiece p.text = p.parameter := by
  by_cases hne : p.initializer = []
  · have htext : p.text = p.declarator := by
      unfold text head
      rw [hne]
      simp
    rw [htext, ofPiece_of_encloses (h.declarator_level endsType_of_isAssignment).1]
    unfold parameter
    rw [hne]
    exact ofDeclarator_written h.visible h.name []
  · exact h.ofPiece_head hne p.initializer

/-- If the first parameter is read back, its default argument encloses its commas, and it closes what it opens if a
comma follows it: otherwise what is read of it has fewer or more commas. -/
theorem IsValid.level_of_first (hp : p.IsValid) {qs : List Parameter}
    (h : (splitOutside allBrackets 0 (p.head ++ (p.initializer ++ s))).map ofPiece = p.parameter :: qs) :
    allBrackets.Encloses isComma 0 p.initializer ∧ ∀ t, s = ',' :: t → allBrackets.behind 0 p.initializer = 0 := by
  obtain ⟨hhead, hbehind⟩ := hp.head_level
  by_cases hne : p.initializer = []
  · rw [hne]
    exact ⟨encloses_nil, fun _ _ => rfl⟩
  · rw [splitOutside_append hhead, hbehind] at h
    cases hpieces : splitOutside allBrackets 0 (p.initializer ++ s) with
    | nil => exact absurd hpieces (splitOutside_ne_nil _ _ _)
    | cons w ps =>
        rw [hpieces] at h
        have hfirst : ofPiece (p.head ++ w) = p.parameter := (List.cons.inj h).1
        rw [hp.ofPiece_head hne] at hfirst
        have htrim : trim w = trim p.initializer := String.ofList_injective (congrArg Parameter.initializer hfirst)
        have hcount := congrArg (List.count ',') htrim
        rw [count_trim (by decide), count_trim (by decide)] at hcount
        exact encloses_of_count hpieces hcount

theorem IsValid.splitOutside_last (hp : p.IsValid) (h : allBrackets.Encloses isComma 0 p.initializer) :
    splitOutside allBrackets 0 (p.head ++ p.initializer) = [p.text] := by
  obtain ⟨hhead, hbehind⟩ := hp.head_level
  refine splitOutside_of_encloses (encloses_append.mpr ⟨hhead, ?_⟩)
  rwa [hbehind]

theorem IsValid.splitOutside_first (hp : p.IsValid) (h : allBrackets.Encloses isComma 0 p.initializer)
    (hcloses : allBrackets.behind 0 p.initializer = 0) (s : List Char) :
    splitOutside allBrackets 0 (p.head ++ (p.initializer ++ ',' :: s)) = p.text :: splitOutside allBrackets 0 s := by
  obtain ⟨hhead, hbehind⟩ := hp.head_level
  have htext : allBrackets.Encloses isComma 0 (p.head ++ p.initializer) := by
    rw [encloses_append, hbehind]
    exact ⟨hhead, h⟩
  rw [← List.append_assoc, splitOutside_append htext, behind_append, hbehind, hcloses, splitOutside_comma]
  exact congrArg (· :: _) (List.append_nil _)

/-- The pieces are the parameters exactly if the default arguments are level. -/
theorem map_ofPiece_list (hne : ps ≠ []) (hps : ∀ p ∈ ps, p.IsValid) :
    (splitOutside allBrackets 0 (list ps)).map ofPiece = ps.map parameter ↔ IsLevel ps := by
  induction ps with
  | nil => exact absurd rfl hne
  | cons p ps ih =>
      obtain ⟨hp, hps⟩ := List.forall_mem_cons.mp hps
      cases ps with
      | nil =>
          rw [list_singleton]
          constructor
          · intro h
            have hfirst :
                (splitOutside allBrackets 0 (p.head ++ (p.initializer ++ []))).map ofPiece = [p.parameter] := by
              rwa [List.append_nil]
            have hlevel := hp.level_of_first hfirst
            exact ⟨List.forall_mem_singleton.mpr hlevel.1, List.forall_mem_nil _⟩
          · intro h
            rw [hp.splitOutside_last (h.encloses p List.mem_cons_self)]
            exact congrArg (· :: []) hp.ofPiece_text
      | cons q ps =>
          have hrest := ih (List.cons_ne_nil q ps) hps
          rw [list_cons_cons]
          have hblank : (splitOutside allBrackets 0 (' ' :: list (q :: ps))).map ofPiece =
              (splitOutside allBrackets 0 (list (q :: ps))).map ofPiece := by
            have hblanks := map_ofPiece_blanks (u := [' ']) (v := []) (by decide) rfl (list (q :: ps))
            rwa [List.append_nil] at hblanks
          constructor
          · intro h
            obtain ⟨hencloses, hcloses⟩ := hp.level_of_first h
            have hclosed := hcloses _ rfl
            rw [hp.splitOutside_first hencloses hclosed, List.map_cons, hblank, List.map_cons] at h
            have hlevel := hrest.mp (List.cons.inj h).2
            exact ⟨List.forall_mem_cons.mpr ⟨hencloses, hlevel.encloses⟩,
              List.forall_mem_cons.mpr ⟨hclosed, hlevel.closes⟩⟩
          · intro h
            obtain ⟨hencloses, hencloses'⟩ := List.forall_mem_cons.mp h.encloses
            obtain ⟨hclosed, hcloses'⟩ := List.forall_mem_cons.mp h.closes
            rw [hp.splitOutside_first hencloses hclosed, List.map_cons, hblank, hp.ofPiece_text,
              hrest.mpr ⟨hencloses', hcloses'⟩]
            rfl

theorem mem_trim_list (hne : ps ≠ []) (hps : ∀ p ∈ ps, p.IsValid) : ' ' ∈ trim (list ps) := by
  obtain ⟨p, qs, rfl⟩ := List.exists_cons_of_ne_nil hne
  have hp := hps p List.mem_cons_self
  have hname := hp.name
  cases hN : p.name with
  | nil =>
      rw [hN] at hname
      cases hname
  | cons d N =>
      have hvisible : isBlank d = false := by
        refine Bool.eq_false_iff.mpr fun hblank => ?_
        have hword := forall_of_isIdentifier hname d (by rw [hN]; exact List.mem_cons_self)
        rw [Lexer.isIdentifierChar_of_isBlank hblank] at hword
        cases hword
      have hlist : ∃ x, list (p :: qs) = p.type ++ ' ' :: d :: x := by
        have hhead : ∃ x, p.head = p.type ++ ' ' :: d :: x := by
          unfold head declarator
          rw [hN, List.append_assoc]
          exact ⟨_, rfl⟩
        obtain ⟨x, hx⟩ := hhead
        cases qs with
        | nil => exact ⟨x ++ p.initializer, by rw [list_singleton, hx, List.append_assoc]; rfl⟩
        | cons q qs => exact ⟨_, by rw [list_cons_cons, hx, List.append_assoc]; rfl⟩
      obtain ⟨x, hx⟩ := hlist
      have hlast := trimRight_append_cons hvisible (trimLeft p.type ++ [' ']) x
      rw [List.append_assoc, List.append_assoc] at hlast
      unfold trim
      rw [hx, TrailingComment.trimLeft_append (trimLeft_ne_nil hp.visible)]
      exact hlast ▸ List.mem_append_right _ List.mem_cons_self

/-- The default argument is level if only what is significant of it is counted. -/
theorem IsValid.level_of_isPlain (hp : p.IsValid) (hplain : p.IsPlain) :
    allBrackets.Encloses isComma 0 p.initializer ∧ allBrackets.behind 0 p.initializer = 0 := by
  by_cases hne : p.initializer = []
  · rw [hne]
    exact ⟨encloses_nil, rfl⟩
  · obtain ⟨a, ha⟩ := hp.expression hne
    obtain ⟨t, ht, -, hsettles⟩ := Lexer.expression_settles ha
    rw [List.append_nil] at ht
    obtain ⟨u, hu, hblank⟩ := exists_trimLeft p.initializer
    have hlevel : allBrackets.Encloses isComma 0 (Lexer.significant 0 p.initializer) ∧
        allBrackets.behind 0 (Lexer.significant 0 p.initializer) = 0 := by
      obtain ⟨hfront, hdepth⟩ := level_of_isBlankText endsType_of_isComma (List.all_eq_true.mpr hblank) 0
      obtain ⟨hencloses, hcloses⟩ := hsettles.level
      rw [hu, ht, Lexer.significant_blank_append hblank, encloses_append, behind_append, hdepth]
      exact ⟨⟨hfront, hencloses⟩, hcloses⟩
    have hcount : ∀ c depth, isCounted c = false → allBrackets.after depth c = depth := by
      intro c depth hc
      exact after_other (by simpa using (Bool.or_eq_false_iff.mp hc).1) depth
    have hcomma : ∀ c, isCounted c = false → isComma c = false := fun c hc => (Bool.or_eq_false_iff.mp hc).2
    rw [← encloses_filter hcount hcomma, ← behind_filter hcount, ← hplain, encloses_filter hcount hcomma,
      behind_filter hcount] at hlevel
    exact hlevel

end Written

open Written

/-- The parameters that are written are read back exactly if their default arguments are level, and the default
arguments are if no bracket and no comma stands in their literals and operators. -/
theorem ofList_written {ps : List Written} (hne : ps ≠ []) (hps : ∀ p ∈ ps, p.IsValid) :
    (ofList (list ps) = ps.map parameter ↔ IsLevel ps) ∧
      ((∀ p ∈ ps, p.IsPlain) → ofList (list ps) = ps.map parameter) := by
  have hspace := mem_trim_list hne hps
  have hpieces : ofList (list ps) = (splitOutside allBrackets 0 (list ps)).map ofPiece := by
    apply ofList_of_visible
    · intro hnil
      rw [hnil] at hspace
      cases hspace
    · intro hvoid
      rw [hvoid] at hspace
      exact absurd hspace (by decide)
  rw [hpieces]
  refine ⟨map_ofPiece_list hne hps, fun hplain => (map_ofPiece_list hne hps).mpr ?_⟩
  have hlevel : ∀ p ∈ ps, _ := fun p hp => (hps p hp).level_of_isPlain (hplain p hp)
  exact ⟨fun p hp => (hlevel p hp).1, fun p hp => (hlevel p (List.dropLast_subset ps hp)).2⟩

theorem ofList_written_call :
    ∃ ps : List Written,
      list ps = "map<int, float> & values, int count = foo(1, 2), char end = '=', bool b".toList ∧
      ofList (list ps) = [⟨"values", "map<int, float> &", ""⟩, ⟨"count", "int", "foo(1, 2)"⟩,
        ⟨"end", "char", "'='"⟩, ⟨"b", "bool", ""⟩] := by
  let ps : List Written := [
    { type := "map<int, float> &".toList, name := "values".toList },
    { type := "int".toList, name := "count".toList, initializer := "foo(1, 2)".toList },
    { type := "char".toList, name := "end".toList, initializer := "'='".toList },
    { type := "bool".toList, name := "b".toList }]
  have hcall : Lexer.expression.answer "foo(1, 2)".toList = (.ok "foo(1, 2)".toList, []) := by
    rw [Lexer.answer_expression]
    cbv
  have hliteral : Lexer.expression.answer "'='".toList = (.ok "'='".toList, []) := by
    rw [Lexer.answer_expression]
    cbv
  have hvalid : ∀ p ∈ ps, p.IsValid := by
    simp only [ps, List.forall_mem_cons]
    refine ⟨?_, ?_, ?_, ?_, List.forall_mem_nil _⟩
    · exact ⟨by decide, by decide, by decide, by decide, fun hne => absurd rfl hne⟩
    · exact ⟨by decide, by decide, by decide, by decide, fun _ => ⟨_, hcall⟩⟩
    · exact ⟨by decide, by decide, by decide, by decide, fun _ => ⟨_, hliteral⟩⟩
    · exact ⟨by decide, by decide, by decide, by decide, fun hne => absurd rfl hne⟩
  have hplain : ∀ p ∈ ps, p.IsPlain := by
    simp only [ps, List.forall_mem_cons]
    refine ⟨?_, ?_, ?_, ?_, List.forall_mem_nil _⟩
    all_goals
      unfold IsPlain
      cbv
  exact ⟨ps, by decide, ((ofList_written (by decide) hvalid).2 hplain).trans (by decide)⟩

/-- A comma in a literal cuts a list. -/
theorem ofList_comma_in_literal :
    ¬∀ ps : List Written, ps ≠ [] → (∀ p ∈ ps, p.IsValid) → ofList (list ps) = ps.map parameter := by
  intro h
  let ps : List Written := [
    { type := "char".toList, name := "a".toList, initializer := "','".toList },
    { type := "int".toList, name := "b".toList }]
  have hliteral : Lexer.expression.answer "','".toList = (.ok "','".toList, []) := by
    rw [Lexer.answer_expression]
    cbv
  have hvalid : ∀ p ∈ ps, p.IsValid := by
    simp only [ps, List.forall_mem_cons]
    refine ⟨?_, ?_, List.forall_mem_nil _⟩
    · exact ⟨by decide, by decide, by decide, by decide, fun _ => ⟨_, hliteral⟩⟩
    · exact ⟨by decide, by decide, by decide, by decide, fun hne => absurd rfl hne⟩
  exact absurd (h ps (by decide) hvalid) (by decide)

end Parameter

end HeaderReflection
