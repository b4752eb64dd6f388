import HeaderReflection.Proofs.Lexer.ExpressionEnds
import HeaderReflection.Proofs.Lexer.Words
import HeaderReflection.Proofs.Source.FieldFlags

/-! # The parts of a field declaration

Behind its attributes and leading words a field declaration is a type, a name and an initializer, and one is
accepted exactly if it is written like that (`FieldText.ofDeclaration_eq_ok_iff`).

* The declarator goes up to the first `=`, opening curly bracket or semicolon outside of brackets
  (`FieldText.cutDeclarator?_eq_some_iff`).  Brackets of all kinds are counted as one there, and a closing one
  counts only where something is open.
* The name is the longest run of identifier characters at the end of the declarator, blanks apart, and the
  type is what stands in front of it (`FieldText.splitTrailingIdentifier_eq_iff`).  Nothing is asked of either
  but that it is not empty, so an array, for instance, has no name and is refused.
* An initializer is an expression that is followed by a semicolon
  (`FieldText.eval_readInitializer_eq_ok_iff`); one in braces stands directly behind the declarator.

Each part is described by an equivalence, so that the same lemmas take a declaration apart and put one
together. -/

namespace HeaderReflection.FieldText

open Checked Text Lexer

variable {s t d e r name type : List Char} {depth : Nat} {c : Char} {stop : Char → Bool}

/-! ### Where a declarator ends -/

/-- Outside brackets, these end a declarator. -/
def isTerminator (c : Char) : Bool := c == '=' || c == '\x7b' || c == ';'

/-- The count of open brackets behind a character.  A closing bracket too many is ignored. -/
def depthAfter (depth : Nat) (c : Char) : Nat :=
  if typeBrackets.openers.contains c then depth + 1
  else if typeBrackets.closers.contains c then depth - 1
  else depth

/-- The count of open brackets behind a text. -/
def depthBehind (depth : Nat) (s : List Char) : Nat := s.foldl depthAfter depth

/-- Every character that ends a declarator stands inside brackets. -/
def Encloses (depth : Nat) (s : List Char) : Prop :=
  ∀ u c v, s = u ++ c :: v → isTerminator c = true → depthBehind depth u ≠ 0

theorem depthBehind_append (depth : Nat) (s t : List Char) :
    depthBehind depth (s ++ t) = depthBehind (depthBehind depth s) t := List.foldl_append

theorem encloses_nil : Encloses depth [] := by
  intro u c v h
  cases u with
  | nil => cases h
  | cons d u => cases h

theorem encloses_cons :
    Encloses depth (c :: s) ↔ (isTerminator c = true → depth ≠ 0) ∧ Encloses (depthAfter depth c) s := by
  constructor
  · intro h
    exact ⟨h [] c s rfl, fun u d v hs => h (c :: u) d v (by rw [hs]; rfl)⟩
  · rintro ⟨hc, hs⟩ u d v h
    cases u with
    | nil =>
        obtain ⟨rfl, -⟩ := List.cons.inj h
        exact hc
    | cons e u =>
        obtain ⟨rfl, htail⟩ := List.cons.inj h
        exact hs u d v htail

theorem encloses_append : Encloses depth (s ++ t) ↔ Encloses depth s ∧ Encloses (depthBehind depth s) t := by
  induction s generalizing depth with
  | nil => exact ⟨fun h => ⟨encloses_nil, h⟩, fun h => h.2⟩
  | cons c s ih => rw [List.cons_append, encloses_cons, encloses_cons, ih, and_assoc]; rfl

theorem plain_of_blank_or_identifierChar (hc : isBlank c = true ∨ isIdentifierChar c = true) (depth : Nat) :
    depthAfter depth c = depth ∧ isTerminator c = false := by
  have hother : ∀ d ∈ typeBrackets.openers ++ typeBrackets.closers ++ ['=', '\x7b', ';'], c ≠ d := by
    have hnone : ∀ d ∈ typeBrackets.openers ++ typeBrackets.closers ++ ['=', '\x7b', ';'],
        ¬(isBlank d = true ∨ isIdentifierChar d = true) := by decide
    rintro d hd rfl
    exact hnone c hd hc
  unfold depthAfter isTerminator
  rw [if_neg, if_neg]
  · refine ⟨rfl, ?_⟩
    simp [hother '=' (by decide), hother '\x7b' (by decide), hother ';' (by decide)]
  · exact fun h => hother c (by simp_all) rfl
  · exact fun h => hother c (by simp_all) rfl

theorem level_of_forall (hs : ∀ c ∈ s, isBlank c = true ∨ isIdentifierChar c = true) :
    depthBehind depth s = depth ∧ Encloses depth s := by
  induction s with
  | nil => exact ⟨rfl, encloses_nil⟩
  | cons c s ih =>
      obtain ⟨hc, hs⟩ := List.forall_mem_cons.mp hs
      obtain ⟨hcount, hstop⟩ := plain_of_blank_or_identifierChar hc depth
      obtain ⟨hbehind, hencloses⟩ := ih hs
      refine ⟨?_, encloses_cons.mpr ⟨fun h => absurd (h.symm.trans hstop) Bool.noConfusion, ?_⟩⟩
      · show depthBehind (depthAfter depth c) s = depth
        rw [hcount, hbehind]
      · rw [hcount]
        exact hencloses

theorem cutDeclarator?_cons (depth : Nat) (c : Char) (s : List Char) :
    cutDeclarator? depth (c :: s) =
      if depth = 0 ∧ isTerminator c = true then some ([], c, s)
      else (cutDeclarator? (depthAfter depth c) s).map fun p => (c :: p.1, p.2) := by
  have hbracket : ∀ d ∈ typeBrackets.openers ++ typeBrackets.closers, isTerminator d = false := by decide
  have hplain : typeBrackets.openers.contains c = true ∨ typeBrackets.closers.contains c = true →
      ¬(depth = 0 ∧ isTerminator c = true) := by
    rintro hc ⟨-, hterminator⟩
    rw [hbracket c (by simpa using hc)] at hterminator
    cases hterminator
  have hterminator : (c = '=' ∨ c = '\x7b' ∨ c = ';') ↔ isTerminator c = true := by
    simp [isTerminator, or_assoc]
  rw [cutDeclarator?]
  unfold depthAfter
  dsimp only
  by_cases hopener : typeBrackets.openers.contains c = true
  · rw [if_pos hopener, if_pos hopener, if_neg (hplain (.inl hopener))]
  · rw [if_neg hopener, if_neg hopener]
    by_cases hcloser : typeBrackets.closers.contains c = true
    · rw [if_pos hcloser, if_pos hcloser, if_neg (hplain (.inr hcloser))]
    · rw [if_neg hcloser, if_neg hcloser]
      simp only [hterminator]

/-- A declarator ends at the first character outside brackets that ends one. -/
theorem cutDeclarator?_eq_some_iff : cutDeclarator? depth s = some (d, c, t) ↔
    s = d ++ c :: t ∧ isTerminator c = true ∧ depthBehind depth d = 0 ∧ Encloses depth d := by
  constructor
  · intro h
    induction s generalizing depth d with
    | nil => cases h
    | cons b s ih =>
        rw [cutDeclarator?_cons] at h
        split at h
        · rename_i hends
          cases h
          exact ⟨rfl, hends.2, hends.1, encloses_nil⟩
        · rename_i hgoes
          obtain ⟨⟨d', p⟩, hcut, heq⟩ := Option.map_eq_some_iff.mp h
          cases heq
          obtain ⟨rfl, hterminator, hclosed, hencloses⟩ := ih hcut
          exact ⟨rfl, hterminator, hclosed, encloses_cons.mpr ⟨fun hb hdepth => hgoes ⟨hdepth, hb⟩, hencloses⟩⟩
  · rintro ⟨rfl, hterminator, hclosed, hencloses⟩
    induction d generalizing depth with
    | nil => exact (cutDeclarator?_cons ..).trans (if_pos ⟨hclosed, hterminator⟩)
    | cons b d ih =>
        obtain ⟨hb, hencloses⟩ := encloses_cons.mp hencloses
        rw [List.cons_append, cutDeclarator?_cons, if_neg fun hends => hb hends.2 hends.1, ih hclosed hencloses]
        rfl

/-! ### Type and name -/

/-- A name may begin behind the text: no identifier character stands at its end. -/
def AdmitsName (s : List Char) : Prop := EndsWord s.reverse

theorem AdmitsName.of_blank {w : List Char} (hw : isBlankText w = true) (hne : w ≠ []) (s : List Char) :
    AdmitsName (s ++ w) := by
  have hblank : isBlankText w.reverse = true := by
    unfold isBlankText
    rw [List.all_reverse]
    exact hw
  obtain ⟨b, v, hv⟩ := List.exists_cons_of_ne_nil (List.reverse_ne_nil_iff.mpr hne)
  unfold AdmitsName
  rw [List.reverse_append, hv]
  rw [hv] at hblank
  exact .of_isBlank (Bool.and_eq_true_iff.mp hblank).1 _

theorem splitTrailingIdentifier_eq_iff (hname : IsWord name) : splitTrailingIdentifier d = (type, name) ↔
    ∃ front w, d = front ++ (name ++ w) ∧ isBlankText w = true ∧ AdmitsName front ∧ Text.trim front = type := by
  constructor
  · intro h
    obtain ⟨htype, hname⟩ := Prod.mk.inj h
    obtain ⟨w, hd, hw⟩ := exists_trimRight d
    have hparts := List.takeWhile_append_dropWhile (p := isIdentifierChar) (l := (trimRight d).reverse)
    refine ⟨((trimRight d).reverse.dropWhile isIdentifierChar).reverse, w, ?_, List.all_eq_true.mpr hw, ?_, htype⟩
    · have hback := congrArg List.reverse hparts
      rw [List.reverse_append, List.reverse_reverse, hname] at hback
      rw [← List.append_assoc, hback]
      exact hd
    · unfold AdmitsName
      rw [List.reverse_reverse]
      exact endsWord_dropWhile _
  · rintro ⟨front, w, rfl, hw, hfront, rfl⟩
    have hword : IsWord name.reverse :=
      ⟨by simpa using hname.1, fun c hc => hname.2 c (List.mem_reverse.mp hc)⟩
    have hright : trimRight (front ++ (name ++ w)) = front ++ name := by
      rw [← List.append_assoc, trimRight_append_blank hw]
      unfold trimRight
      rw [List.reverse_append]
      have hkeep := hword.trimLeft_append front.reverse
      unfold trimLeft at hkeep
      rw [hkeep, ← List.reverse_append, List.reverse_reverse]
    unfold splitTrailingIdentifier
    rw [hright]
    dsimp only
    rw [List.reverse_append, hword.takeWhile_append hfront, hword.dropWhile_append hfront, List.reverse_reverse,
      List.reverse_reverse]

/-! ### Initializers -/

/-- The text is not empty, has no blanks at its ends, and is read whole in front of a semicolon. -/
structure IsInitializer (e : List Char) : Prop where
  ne_nil : e ≠ []
  trimmed : Text.trim e = e
  ends : expressionRun {} (e ++ [';']) = .ok [';']

theorem answer_expect_semicolon (hr : EndsExpression r) :
    (∃ v, (expect [';']).answer r = (.ok (), v)) ↔ ∃ z, r = ';' :: z := by
  have hanswer : (swallow [';']).answer r = _ := answer_swallowBy (dropLiteral? [';']) r
  rw [hr.trimLeft_eq] at hanswer
  constructor
  · rintro ⟨v, hv⟩
    obtain ⟨found, u, hfound, hv⟩ := bind_answer_eq_ok.mp hv
    rw [hanswer] at hfound
    split at hfound
    · rename_i z hz
      exact ⟨z, dropLiteral?_eq_some.mp hz⟩
    · cases hfound
      cases hv
  · rintro ⟨z, rfl⟩
    have hdrop : dropLiteral? [';'] (';' :: z) = some z := dropLiteral?_eq_some.mpr rfl
    rw [hdrop] at hanswer
    exact ⟨z, answer_bind_of_ok hanswer⟩

/-- An initializer is the trimmed text in front of a semicolon. -/
theorem eval_readInitializer (s : List Char) : readInitializer.eval s = .ok e ↔
    ∃ z, expressionRun {} (trimLeft s) = .ok (';' :: z) ∧ e ≠ [] ∧ Text.trim (taken (trimLeft s) (';' :: z)) = e := by
  constructor
  · intro h
    have hwhole : readInitializer.answer s = (.ok e, (readInitializer.answer s).2) := Prod.ext h rfl
    obtain ⟨a, r, ha, hwhole⟩ := bind_answer_eq_ok.mp hwhole
    obtain ⟨hrun, rfl⟩ := answer_expression_eq_ok.mp ha
    split at hwhole
    · cases hwhole
    · rename_i hne
      obtain ⟨_, u, hu, hwhole⟩ := bind_answer_eq_ok.mp hwhole
      cases hwhole
      obtain ⟨z, rfl⟩ := (answer_expect_semicolon (endsExpression_of_expressionRun hrun)).mp ⟨_, hu⟩
      exact ⟨z, hrun, by simpa using hne, rfl⟩
  · rintro ⟨z, hrun, hne, rfl⟩
    obtain ⟨v, hv⟩ := (answer_expect_semicolon (endsExpression_of_expressionRun hrun)).mpr ⟨z, rfl⟩
    have hanswer : readInitializer.answer s = _ := answer_bind_of_ok (answer_expression_eq_ok.mpr ⟨hrun, rfl⟩)
    unfold eval
    rw [hanswer, if_neg (by simpa using hne), answer_bind_of_ok hv]
    rfl

theorem eval_readInitializer_eq_ok_iff : readInitializer.eval s = .ok e ↔
    IsInitializer e ∧ ∃ x y z, isBlankText x = true ∧ isBlankText y = true ∧ s = x ++ (e ++ (y ++ ';' :: z)) := by
  rw [eval_readInitializer]
  constructor
  · rintro ⟨z, hrun, hne, htrim⟩
    obtain ⟨a, ha⟩ := expressionRun_suffix hrun
    rw [← ha, taken_append] at htrim
    obtain ⟨x, hs, hx⟩ := exists_blank_trimLeft s
    -- Nothing is blank in front of the expression.
    have hleft : trimLeft a = a := by
      have htwice := trimLeft_trimLeft s
      rw [← ha, TrailingComment.trimLeft_append fun hnil => hne (htrim ▸ congrArg trimRight hnil)] at htwice
      exact List.append_cancel_right htwice
    obtain ⟨y, haey, hy⟩ := exists_trimRight a
    have he : e = trimRight a := by rw [← htrim, Text.trim, hleft]
    rw [← he] at haey
    have hwhole : trimLeft s = e ++ (y ++ ';' :: z) := by
      rw [← ha, haey, List.append_assoc]
    have hy := List.all_eq_true.mpr hy
    refine ⟨⟨hne, ?_, ?_⟩, x, y, z, hx, hy, by rw [← hwhole]; exact hs⟩
    · rw [← htrim, trim_trim]
    · rw [hwhole] at hrun
      exact expressionRun_semicolon hy hrun (rfl : isBlankText [] = true) []
  · rintro ⟨⟨hne, htrim, hends⟩, x, y, z, hx, hy, rfl⟩
    have hbegins : trimLeft e = e := by
      have honce := trimLeft_trim e
      rwa [htrim] at honce
    have hleft : trimLeft (x ++ (e ++ (y ++ ';' :: z))) = (e ++ y) ++ ';' :: z := by
      rw [trimLeft_blank_append hx, TrailingComment.trimLeft_append (by rwa [hbegins]), hbegins, List.append_assoc]
    refine ⟨z, ?_, hne, ?_⟩
    · rw [hleft, List.append_assoc]
      exact expressionRun_semicolon (y := []) rfl hends hy z
    · rw [hleft, taken_append, trim_append_blank hy, htrim]

/-! ### Whole declarations -/

/-- The declarator of a type and a name: blanks around and between them, no brackets open behind the type, and nothing
outside brackets in it that would end the declarator. -/
structure IsDeclarator (type name d : List Char) : Prop where
  ne_nil : type ≠ []
  trimmed : Text.trim type = type
  closed : depthBehind 0 type = 0
  encloses : Encloses 0 type
  isWord : IsWord name
  written : ∃ u v w, isBlankText u = true ∧ isBlankText v = true ∧ isBlankText w = true ∧ AdmitsName (type ++ v) ∧
    d = u ++ (type ++ (v ++ (name ++ w)))

/-- What may stand behind a declarator: no initializer, one behind `=`, or one that is written in braces. -/
inductive IsAssignment : (braced : Bool) → (initializer : List Char) → List Char → Prop where
  | nothing (z : List Char) : IsAssignment false [] (';' :: z)
  | equals {e x y : List Char} (he : IsInitializer e) (hx : isBlankText x = true) (hy : isBlankText y = true)
      (z : List Char) : IsAssignment false e ('=' :: (x ++ (e ++ (y ++ ';' :: z))))
  | braces {e y : List Char} (he : IsInitializer ('\x7b' :: e)) (hy : isBlankText y = true) (z : List Char) :
      IsAssignment true ('\x7b' :: e) ('\x7b' :: (e ++ (y ++ ';' :: z)))

theorem IsDeclarator.level (h : IsDeclarator type name d) : depthBehind 0 d = 0 ∧ Encloses 0 d := by
  obtain ⟨u, v, w, hu, hv, hw, -, rfl⟩ := h.written
  have hfront : depthBehind 0 u = 0 ∧ Encloses 0 u := level_of_forall fun c hc => .inl (List.all_eq_true.mp hu c hc)
  have hback : depthBehind 0 (v ++ (name ++ w)) = 0 ∧ Encloses 0 (v ++ (name ++ w)) := by
    refine level_of_forall ?_
    simp only [List.forall_mem_append]
    exact ⟨fun c hc => .inl (List.all_eq_true.mp hv c hc), fun c hc => .inr (h.isWord.2 c hc),
      fun c hc => .inl (List.all_eq_true.mp hw c hc)⟩
  rw [depthBehind_append, depthBehind_append, encloses_append, encloses_append, hfront.1, h.closed]
  exact ⟨hback.1, hfront.2, h.encloses, hback.2⟩

theorem admitsName_append (hs : s ≠ []) (t : List Char) : AdmitsName (t ++ s) ↔ AdmitsName s := by
  obtain ⟨c, v, hv⟩ := List.exists_cons_of_ne_nil (List.reverse_ne_nil_iff.mpr hs)
  unfold AdmitsName EndsWord
  rw [List.reverse_append, hv, List.cons_append]
  by_cases hc : isIdentifierChar c = true
  · rw [List.takeWhile_cons_of_pos hc, List.takeWhile_cons_of_pos hc]
    simp
  · rw [List.takeWhile_cons_of_neg hc, List.takeWhile_cons_of_neg hc]

/-- A declarator is taken apart into its type and its name. -/
theorem isDeclarator_iff : IsDeclarator type name d ↔
    depthBehind 0 d = 0 ∧ Encloses 0 d ∧ type ≠ [] ∧ IsWord name ∧ splitTrailingIdentifier d = (type, name) := by
  constructor
  · intro h
    obtain ⟨u, v, w, hu, hv, hw, hadmits, rfl⟩ := h.written
    have hne : type ++ v ≠ [] := List.append_ne_nil_of_left_ne_nil h.ne_nil v
    refine ⟨h.level.1, h.level.2, h.ne_nil, h.isWord, (splitTrailingIdentifier_eq_iff h.isWord).mpr ?_⟩
    refine ⟨u ++ (type ++ v), w, by simp, hw, (admitsName_append hne u).mpr hadmits, ?_⟩
    rw [trim_blank_append hu, trim_append_blank hv, h.trimmed]
  · rintro ⟨hclosed, hencloses, hne, hname, hsplit⟩
    obtain ⟨front, w, rfl, hw, hadmits, rfl⟩ := (splitTrailingIdentifier_eq_iff hname).mp hsplit
    obtain ⟨u, v, hfront, hu, hv⟩ := exists_trim front
    have hbegins : depthBehind 0 u = 0 ∧ Encloses 0 u := level_of_forall fun c hc => .inl (List.all_eq_true.mp hu c hc)
    have hinner : ∀ c ∈ v ++ (name ++ w), isBlank c = true ∨ isIdentifierChar c = true := by
      simp only [List.forall_mem_append]
      exact ⟨fun c hc => .inl (List.all_eq_true.mp hv c hc), fun c hc => .inr (hname.2 c hc),
        fun c hc => .inl (List.all_eq_true.mp hw c hc)⟩
    have hwhole : front ++ (name ++ w) = u ++ (Text.trim front ++ (v ++ (name ++ w))) := by
      have happend := congrArg (· ++ (name ++ w)) hfront
      simpa using happend
    rw [hwhole, depthBehind_append, depthBehind_append, hbegins.1, (level_of_forall hinner).1] at hclosed
    rw [hwhole, encloses_append, encloses_append, hbegins.1] at hencloses
    refine ⟨hne, trim_trim front, hclosed, hencloses.2.1, hname, u, v, w, hu, hv, hw, ?_, hwhole⟩
    rw [hfront] at hadmits
    exact (admitsName_append (List.append_ne_nil_of_left_ne_nil hne v) u).mp hadmits

theorem typeAndName_eq_ok_iff {typeText nameText : String} : typeAndName d = .ok (typeText, nameText) ↔
    ∃ type name, splitTrailingIdentifier d = (type, name) ∧ type ≠ [] ∧ IsWord name ∧
      typeText = String.ofList type ∧ nameText = String.ofList name := by
  have hrun : ∀ c ∈ (splitTrailingIdentifier d).2, isIdentifierChar c = true := by
    intro c hc
    exact List.all_eq_true.mp List.all_takeWhile c (List.mem_reverse.mp hc)
  unfold typeAndName
  cases hsplit : splitTrailingIdentifier d with
  | mk type name =>
      rw [hsplit] at hrun
      cases name with
      | nil => simp [IsWord]
      | cons c name =>
          cases type with
          | nil => simp
          | cons b type =>
              simp only [Except.ok.injEq, Prod.mk.injEq]
              constructor
              · rintro ⟨rfl, rfl⟩
                exact ⟨_, _, ⟨rfl, rfl⟩, List.cons_ne_nil _ _, ⟨List.cons_ne_nil _ _, hrun⟩, rfl, rfl⟩
              · rintro ⟨_, _, ⟨rfl, rfl⟩, -, -, rfl, rfl⟩
                exact ⟨rfl, rfl⟩

/-- A declaration is cut into its declarator and what is assigned. -/
theorem split_eq_ok_iff {braced : Bool} : split s = .ok (d, e, braced) ↔
    depthBehind 0 d = 0 ∧ Encloses 0 d ∧ ∃ r, IsAssignment braced e r ∧ s = d ++ r := by
  constructor
  · intro h
    unfold split at h
    split at h
    · cases h
    · rename_i hcut
      cases h
      obtain ⟨hs, -, hclosed, hencloses⟩ := cutDeclarator?_eq_some_iff.mp hcut
      exact ⟨hclosed, hencloses, _, .nothing _, hs⟩
    · rename_i hcut
      obtain ⟨_, he, h⟩ := bind_eq_ok.mp h
      cases h
      obtain ⟨hs, -, hclosed, hencloses⟩ := cutDeclarator?_eq_some_iff.mp hcut
      obtain ⟨hinitializer, x, y, z, hx, hy, rfl⟩ := eval_readInitializer_eq_ok_iff.mp he
      exact ⟨hclosed, hencloses, _, .equals hinitializer hx hy z, hs⟩
    · rename_i d' c rest hsemicolon hequals hcut
      obtain ⟨_, he, h⟩ := bind_eq_ok.mp h
      cases h
      obtain ⟨hs, hterminator, hclosed, hencloses⟩ := cutDeclarator?_eq_some_iff.mp hcut
      obtain ⟨hinitializer, x, y, z, hx, hy, hrest⟩ := eval_readInitializer_eq_ok_iff.mp he
      obtain rfl : c = '\x7b' := by
        have hthree : (c = '=' ∨ c = '\x7b') ∨ c = ';' := by simpa [isTerminator] using hterminator
        rcases hthree with (hc | hc) | hc
        · exact (hequals hc).elim
        · exact hc
        · exact (hsemicolon hc).elim
      obtain ⟨b, e, rfl⟩ := List.exists_cons_of_ne_nil hinitializer.ne_nil
      cases x with
      | nil =>
          obtain ⟨rfl, rfl⟩ := List.cons.inj hrest
          exact ⟨hclosed, hencloses, _, .braces hinitializer hy z, hs⟩
      | cons a x =>
          obtain ⟨rfl, -⟩ := List.cons.inj hrest
          cases hx
  · rintro ⟨hclosed, hencloses, r, hassignment, rfl⟩
    have hcut : ∀ {c t}, isTerminator c = true → cutDeclarator? 0 (d ++ c :: t) = some (d, c, t) := fun hc =>
      cutDeclarator?_eq_some_iff.mpr ⟨rfl, hc, hclosed, hencloses⟩
    unfold split
    cases hassignment with
    | nothing z =>
        rw [hcut rfl]
        rfl
    | @equals _ x y he hx hy z =>
        rw [hcut rfl]
        have hread := eval_readInitializer_eq_ok_iff.mpr ⟨he, x, y, z, hx, hy, rfl⟩
        exact bind_eq_ok.mpr ⟨_, hread, rfl⟩
    | @braces e y he hy z =>
        rw [hcut rfl]
        have hread := eval_readInitializer_eq_ok_iff.mpr ⟨he, [], y, z, rfl, hy, rfl⟩
        exact bind_eq_ok.mpr ⟨_, hread, rfl⟩

/-- What is accepted behind attributes and leading words is a declarator and what is assigned. -/
theorem ofDeclaration_eq_ok_iff {native : Bag} {flags : FlagSet FieldFlag} {f : FieldText} :
    ofDeclaration native flags s = .ok f ↔ ∃ type name d e r braced,
      IsDeclarator type name d ∧ IsAssignment braced e r ∧ s = d ++ r ∧
        f = ⟨native, flags.insertIf braced .braceInitialized, String.ofList type, String.ofList name,
          String.ofList e⟩ := by
  constructor
  · intro h
    obtain ⟨⟨d, e, braced⟩, hsplit, h⟩ := bind_eq_ok.mp h
    obtain ⟨⟨typeText, nameText⟩, hparts, h⟩ := bind_eq_ok.mp h
    obtain rfl := pure_eq_ok.mp h
    obtain ⟨hclosed, hencloses, r, hassignment, rfl⟩ := split_eq_ok_iff.mp hsplit
    obtain ⟨type, name, htrailing, hne, hname, rfl, rfl⟩ := typeAndName_eq_ok_iff.mp hparts
    exact ⟨type, name, d, e, r, braced, isDeclarator_iff.mpr ⟨hclosed, hencloses, hne, hname, htrailing⟩,
      hassignment, rfl, rfl⟩
  · rintro ⟨type, name, d, e, r, braced, hdeclarator, hassignment, rfl, rfl⟩
    obtain ⟨hclosed, hencloses, hne, hname, htrailing⟩ := isDeclarator_iff.mp hdeclarator
    refine bind_eq_ok.mpr ⟨_, split_eq_ok_iff.mpr ⟨hclosed, hencloses, r, hassignment, rfl⟩, ?_⟩
    exact bind_eq_ok.mpr ⟨_, typeAndName_eq_ok_iff.mpr ⟨type, name, htrailing, hne, hname, rfl, rfl⟩, rfl⟩

/-- Behind native attributes and leading words, the text declares a field of this type and name with this initializer,
which is empty if there is none. -/
def Declares (text type name e : List Char) : Prop :=
  ∃ native behind ws d r braced, nativeAttributes.split text = .ok (native, behind) ∧
    LeadingWords words behind ws (d ++ r) ∧ IsDeclarator type name d ∧ IsAssignment braced e r

/-- The text of a field is taken apart into its type, its name and its initializer. -/
theorem declares_of_read {text : List Char} {f : FieldText} (h : read.eval text = .ok f) :
    Declares text f.type.toList f.name.toList f.initializer.toList := by
  obtain ⟨native, behind, flags, rest, hnative, hflags, hx⟩ := read_eq_ok_iff.mp h
  obtain ⟨ws, rest', out, hout, hwords, -⟩ := iterateOn_flagStep {} behind
  obtain ⟨-, rfl⟩ := Prod.mk.inj (hflags.symm.trans hout)
  obtain ⟨type, name, d, e, r, braced, hdeclarator, hassignment, rfl, rfl⟩ := ofDeclaration_eq_ok_iff.mp hx
  simp only [String.toList_ofList]
  exact ⟨native, behind, ws, d, r, braced, hnative, hwords, hdeclarator, hassignment⟩

end HeaderReflection.FieldText

namespace HeaderReflection.Reader

open Checked

variable {r : Reader}

theorem fieldOf_declares (site : MarkerSite) (owner : Class) (access : Access) (text : List Char) :
    Yields (r.fieldOf site owner access text) fun f =>
      FieldText.Declares text f.type.toList f.name.toList f.initializer.toList := by
  refine .bind (.lift fun t ht => ht) fun t ht => .bind (.any _) fun _ _ => .bind (.any _) fun _ _ => ?_
  refine .bind (.any _) fun _ _ => .bind (.any _) fun _ _ => .bind (.any _) fun _ _ => ?_
  exact .bind (.any _) fun _ _ => .bind (.any _) fun _ _ => .pure (FieldText.declares_of_read ht)

end HeaderReflection.Reader
