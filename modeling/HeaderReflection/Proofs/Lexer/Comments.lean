import HeaderReflection.Lexer.Expression
import HeaderReflection.Proofs.Lexer.Takes

/-! # Comments behind a text

A line comment may stand behind the text that a lexer reads, apart from it by blanks
(`Lexer.TrailingComment`).  A lexer is steady on a text if no such comment changes its answer: what it leaves
is then followed by the comment as the text was (`Lexer.SteadyAt`).

* Most lexers are steady on every text (`Lexer.Steady`), since they end where a literal, a word or a bracket
  does.
* Types, expressions and texts up to a stop may end where the text ends; these are steady wherever something
  is left behind them (`Lexer.SteadyUnlessSpent`).
* At the end of a declaration nothing is read any more, and there only the answer has to be the same
  (`Lexer.SettledAt`).

All three are kept by the ways to put lexers together, so a reader is steady because its parts are.  A lexer
that skips blanks may leave the comment without its blanks, and this is why what follows a text is either the
whole comment or the comment alone (`Lexer.Follows`). -/

namespace HeaderReflection

open Text

/-! ### Comments -/

/-- A line comment and the blanks in front of it. -/
structure TrailingComment where
  gap : List Char
  /-- What stands behind the two slashes. -/
  text : List Char
  gap_ne_nil : gap ≠ []
  gap_blank : ∀ d ∈ gap, isBlank d = true

namespace TrailingComment

variable (c : TrailingComment)

/-- The comment without the blanks in front of it. -/
def slashes : List Char := '/' :: '/' :: c.text

/-- The comment with the blanks in front of it. -/
def chars : List Char := c.gap ++ c.slashes

/-- The second text is the first one with the comment behind it.  Where nothing else is left, the blanks in
front of the comment may have been skipped. -/
inductive Follows : List Char → List Char → Prop where
  | behind (s : List Char) : Follows s (s ++ c.chars)
  | alone : Follows [] c.slashes

variable {c} {s t r u : List Char}

theorem exists_chars_eq_cons (c : TrailingComment) : ∃ d x, c.chars = d :: x ∧ isBlank d = true := by
  cases hgap : c.gap with
  | nil => exact absurd hgap c.gap_ne_nil
  | cons d gap =>
      refine ⟨d, gap ++ c.slashes, ?_, c.gap_blank d (by rw [hgap]; exact List.mem_cons_self)⟩
      unfold chars
      rw [hgap]
      rfl

theorem trimLeft_chars (c : TrailingComment) : trimLeft c.chars = c.slashes := by
  have hslash : trimLeft c.slashes = c.slashes := rfl
  unfold chars trimLeft
  rw [List.dropWhile_append_of_pos c.gap_blank]
  exact hslash

theorem Follows.eq_append (h : c.Follows s t) (hs : s ≠ []) : t = s ++ c.chars := by
  cases h with
  | behind => rfl
  | alone => exact absurd rfl hs

theorem trimLeft_append (hs : trimLeft s ≠ []) (x : List Char) : trimLeft (s ++ x) = trimLeft s ++ x := by
  obtain ⟨w, hw, hblank⟩ := exists_trimLeft s
  unfold trimLeft at hw hs ⊢
  rw [List.dropWhile_append, if_neg]
  rwa [List.isEmpty_iff]

theorem trimLeft_append_of_blank (hs : trimLeft s = []) (x : List Char) : trimLeft (s ++ x) = trimLeft x := by
  unfold trimLeft at hs ⊢
  rw [List.dropWhile_append, hs]
  rfl

theorem Follows.trimLeft (h : c.Follows s t) : c.Follows (trimLeft s) (trimLeft t) := by
  cases h with
  | behind =>
      by_cases hs : Text.trimLeft s = []
      · rw [trimLeft_append_of_blank hs, trimLeft_chars, hs]
        exact .alone
      · rw [trimLeft_append hs]
        exact .behind _
  | alone => exact .alone

/-- If part of a text is taken, part of the text with the comment is. -/
theorem Follows.length_lt (hst : c.Follows s t) (hru : c.Follows r u) (hlt : r.length < s.length) :
    u.length < t.length := by
  have hs : s ≠ [] := by
    rintro rfl
    exact absurd hlt (Nat.not_lt_zero _)
  obtain rfl := hst.eq_append hs
  have hslashes : c.slashes.length ≤ c.chars.length := by
    unfold chars
    rw [List.length_append]
    omega
  cases hru with
  | behind =>
      rw [List.length_append, List.length_append]
      omega
  | alone =>
      rw [List.length_append]
      omega

end TrailingComment

/-! ### Steady lexers -/

namespace Lexer

variable {α β : Type}

/-- The lexer leaves an end of the text, and a comment behind the text stays behind what is left. -/
def SteadyAt (m : Lexer α) (s : List Char) : Prop :=
  ∀ a r, m.answer s = (.ok a, r) → r <:+ s ∧
    ∀ (c : TrailingComment) t, c.Follows s t → ∃ u, m.answer t = (.ok a, u) ∧ c.Follows r u

/-- The lexer is steady on every text. -/
def Steady (m : Lexer α) : Prop := ∀ s, m.SteadyAt s

/-- The lexer is steady on every text that it does not read to the end. -/
def SteadyUnlessSpent (m : Lexer α) : Prop :=
  ∀ s a r, m.answer s = (.ok a, r) → r ≠ [] → r <:+ s ∧
    ∀ (c : TrailingComment) t, c.Follows s t → ∃ u, m.answer t = (.ok a, u) ∧ c.Follows r u

/-- No comment behind the text changes what the lexer answers. -/
def SettledAt (m : Lexer α) (s : List Char) : Prop :=
  ∀ a, m.eval s = .ok a → ∀ (c : TrailingComment) t, c.Follows s t → m.eval t = .ok a

namespace SteadyAt

variable {m : Lexer α} {s : List Char}

theorem pure (a : α) (s : List Char) : SteadyAt (Pure.pure a) s := by
  intro b r h
  cases h
  exact ⟨List.suffix_rfl, fun c t ht => ⟨t, rfl, ht⟩⟩

theorem of_fails (h : ∀ a r, m.answer s ≠ (.ok a, r)) : m.SteadyAt s :=
  fun a r ha => absurd ha (h a r)

theorem throw (e : Cause) (s : List Char) : SteadyAt (throw e : Lexer α) s := of_fails nofun

theorem bind {f : α → Lexer β} (hm : m.SteadyAt s)
    (hf : ∀ a r, m.answer s = (.ok a, r) → (f a).SteadyAt r) : (m >>= f).SteadyAt s := by
  intro b r h
  obtain ⟨a, v, hfirst, hsecond⟩ := bind_answer_eq_ok.mp h
  obtain ⟨hv, hcomment⟩ := hm a v hfirst
  obtain ⟨hr, hcomment'⟩ := hf a v hfirst b r hsecond
  refine ⟨hr.trans hv, fun c t ht => ?_⟩
  obtain ⟨w, hw, hvw⟩ := hcomment c t ht
  obtain ⟨u, hu, hru⟩ := hcomment' c w hvw
  exact ⟨u, bind_answer_eq_ok.mpr ⟨a, w, hw, hu⟩, hru⟩

theorem throw_bind (e : Cause) {f : α → Lexer β} (s : List Char) :
    SteadyAt (MonadExcept.throw e >>= f) s :=
  bind (throw e s) fun _ _ h => nomatch h

theorem ite {p : Prop} [Decidable p] {n : Lexer α} (hm : p → m.SteadyAt s) (hn : ¬p → n.SteadyAt s) :
    SteadyAt (if p then m else n) s := by
  split
  · rename_i hp
    exact hm hp
  · rename_i hp
    exact hn hp

theorem settled (hm : m.SteadyAt s) : m.SettledAt s := by
  intro a ha c t ht
  have hanswer : m.answer s = (.ok a, (m.answer s).2) := by
    rw [← ha]
    rfl
  obtain ⟨-, hcomment⟩ := hm a _ hanswer
  obtain ⟨u, hu, -⟩ := hcomment c t ht
  exact congrArg Prod.fst hu

end SteadyAt

/-- What is read to the end behind a steady lexer is settled if it is settled there. -/
theorem SettledAt.bind {m : Lexer α} {s : List Char} {f : α → Lexer β} (hm : m.SteadyAt s)
    (hf : ∀ a r, m.answer s = (.ok a, r) → (f a).SettledAt r) : (m >>= f).SettledAt s := by
  intro b hb c t ht
  have hanswer : (m >>= f).answer s = (.ok b, ((m >>= f).answer s).2) := by
    rw [← hb]
    rfl
  obtain ⟨a, v, hfirst, hsecond⟩ := bind_answer_eq_ok.mp hanswer
  obtain ⟨-, hcomment⟩ := hm a v hfirst
  obtain ⟨w, hw, hvw⟩ := hcomment c t ht
  have hread := hf a v hfirst b (congrArg Prod.fst hsecond) c w hvw
  have hlast : (f a).answer w = (.ok b, ((f a).answer w).2) := by
    rw [← hread]
    rfl
  exact congrArg Prod.fst (bind_answer_eq_ok.mpr ⟨a, w, hw, hlast⟩)

theorem SteadyUnlessSpent.steadyAt {m : Lexer α} (hm : m.SteadyUnlessSpent) {s r : List Char} {a : α}
    (h : m.answer s = (.ok a, r)) (hr : r ≠ []) : m.SteadyAt s := by
  intro b v hb
  rw [h] at hb
  cases hb
  exact hm s a r h hr

namespace Steady

variable {m : Lexer α}

theorem pure (a : α) : Steady (Pure.pure a) := SteadyAt.pure a

theorem throw (e : Cause) : Steady (throw e : Lexer α) := SteadyAt.throw e

theorem bind {f : α → Lexer β} (hm : m.Steady) (hf : ∀ a, (f a).Steady) : Steady (m >>= f) :=
  fun s => (hm s).bind fun a r _ => hf a r

theorem throw_bind (e : Cause) {f : α → Lexer β} : Steady (MonadExcept.throw e >>= f) :=
  SteadyAt.throw_bind e

theorem ite {p : Prop} [Decidable p] {n : Lexer α} (hm : p → m.Steady) (hn : ¬p → n.Steady) :
    Steady (if p then m else n) :=
  fun s => .ite (fun hp => hm hp s) fun hp => hn hp s

/-- A lexer behind one that may read everything, if it cannot do without any text. -/
theorem bind_unless_spent {f : α → Lexer β} (hm : m.SteadyUnlessSpent) (hf : ∀ a, (f a).Steady)
    (hneeds : ∀ a b r, (f a).answer [] ≠ (.ok b, r)) : Steady (m >>= f) := by
  intro s b r h
  obtain ⟨a, v, hfirst, hsecond⟩ := bind_answer_eq_ok.mp h
  have hv : v ≠ [] := by
    rintro rfl
    exact hneeds a b r hsecond
  exact (hm.steadyAt hfirst hv).bind (fun a r _ => hf a r) b r h

/-- The steps of a repetition are steady, and none of them goes on without taking something. -/
theorem iterate {step : α → Lexer (ForInStep α)} (hstep : ∀ x, (step x).Steady)
    (hneeds : ∀ x y r, (step x).answer [] ≠ (.ok (.yield y), r)) (x : α) : (Lexer.iterate step x).Steady := by
  intro s
  suffices hrun : ∀ y r, iterateOn step x s = (.ok y, r) → r <:+ s ∧
      ∀ (c : TrailingComment) t, c.Follows s t → ∃ u, iterateOn step x t = (.ok y, u) ∧ c.Follows r u from hrun
  fun_induction iterateOn step x s with
  | case1 x s z w hz =>
      intro y r h
      cases h
      obtain ⟨hw, hcomment⟩ := hstep x s _ _ hz
      refine ⟨hw, fun c t ht => ?_⟩
      obtain ⟨u, hu, hwu⟩ := hcomment c t ht
      refine ⟨u, ?_, hwu⟩
      rw [iterateOn, hu]
  | case2 x s z w hz hlt ih =>
      intro y r h
      obtain ⟨hw, hcomment⟩ := hstep x s _ _ hz
      obtain ⟨hr, hcomment'⟩ := ih y r h
      refine ⟨hr.trans hw, fun c t ht => ?_⟩
      obtain ⟨v, hv, hwv⟩ := hcomment c t ht
      obtain ⟨u, hu, hru⟩ := hcomment' c v hwv
      refine ⟨u, ?_, hru⟩
      rw [iterateOn, hv]
      exact (if_pos (ht.length_lt hwv hlt)).trans hu
  | case3 x s z w hz hlt =>
      intro y r h
      cases h
      obtain ⟨hw, hcomment⟩ := hstep x s _ _ hz
      refine ⟨hw, fun c t ht => ?_⟩
      obtain ⟨u, hu, hwu⟩ := hcomment c t ht
      -- Nothing was taken, and so there is something to take: the comment is not reached.
      obtain rfl : w = s := hw.eq_of_length_le (Nat.not_lt.mp hlt)
      have hne : w ≠ [] := by
        rintro rfl
        exact hneeds x z [] hz
      refine ⟨u, ?_, hwu⟩
      rw [iterateOn, hu]
      refine if_neg ?_
      rw [ht.eq_append hne, hwu.eq_append hne]
      exact Nat.lt_irrefl _
  | case4 x s e w hz =>
      intro y r h
      cases h

end Steady

/-! ### The smallest lexers -/

section smallest

variable {c : TrailingComment} {s t : List Char}

open TrailingComment

/-- The literal does not reach into a comment: it is not empty, does not begin with a slash and has no blanks. -/
def isSolid : List Char → Bool
  | [] => false
  | d :: literal => d != '/' && (d :: literal).all (!isBlank ·)

theorem steady_trim : Lexer.trim.Steady := by
  intro s a r h
  cases h
  exact ⟨trimLeft_suffix s, fun c t ht => ⟨_, rfl, ht.trimLeft⟩⟩

theorem steady_missing (what : String) : (missing what : Lexer α).Steady :=
  fun _ => .of_fails nofun

theorem dropLiteral?_slashes {literal : List Char} (hsolid : isSolid literal = true) :
    dropLiteral? literal c.slashes = none := by
  refine Option.eq_none_iff_forall_not_mem.mpr fun r hr => ?_
  have heq := dropLiteral?_eq_some.mp hr
  cases literal with
  | nil => cases hsolid
  | cons d literal =>
      obtain rfl : '/' = d := (List.cons.inj heq).1
      simp [isSolid] at hsolid

theorem dropLiteral?_append_blank {w : List Char} {b : Char} (hw : ∀ c ∈ w, isBlank c = false)
    (hb : isBlank b = true) (s t : List Char) :
    dropLiteral? w (s ++ b :: t) = (dropLiteral? w s).map (· ++ b :: t) := by
  cases hdrop : dropLiteral? w s with
  | some r =>
      rw [dropLiteral?_eq_some.mp hdrop, List.append_assoc]
      exact dropLiteral?_eq_some.mpr rfl
  | none =>
      refine Option.eq_none_iff_forall_not_mem.mpr fun r hr => ?_
      rcases List.append_eq_append_iff.mp (dropLiteral?_eq_some.mp hr) with ⟨v, hv, hx⟩ | ⟨v, hv, -⟩
      · cases v with
        | nil =>
            have hwhole : dropLiteral? w s = some [] := dropLiteral?_eq_some.mpr (by simp [hv])
            rw [hwhole] at hdrop
            cases hdrop
        | cons e v =>
            -- The literal would hold the blank.
            obtain rfl : b = e := (List.cons.inj hx).1
            have hnone := hw b (by rw [hv]; simp)
            rw [hb] at hnone
            cases hnone
      · rw [dropLiteral?_eq_some.mpr hv] at hdrop
        cases hdrop

/-- A literal is taken in front of a comment exactly if it is taken in front of nothing. -/
theorem dropLiteral?_append {literal : List Char} (hsolid : isSolid literal = true) (s : List Char) :
    dropLiteral? literal (s ++ c.chars) = (dropLiteral? literal s).map (· ++ c.chars) := by
  obtain ⟨d, x, hchars, hd⟩ := c.exists_chars_eq_cons
  have hvisible : ∀ e ∈ literal, isBlank e = false := by
    intro e he
    cases literal with
    | nil => cases he
    | cons e' literal =>
        have hall := (Bool.and_eq_true_iff.mp hsolid).2
        simpa using List.all_eq_true.mp hall e he
  rw [hchars]
  exact dropLiteral?_append_blank hvisible hd s x

/-- What is taken in front of a text, and whether anything is, does not change with a comment. -/
structure IsSteadyTake (f : List Char → Option (List Char)) : Prop where
  suffix : ∀ {s r}, f s = some r → r <:+ s
  takes : ∀ {c : TrailingComment} {s t r}, c.Follows s t → f s = some r → ∃ u, f t = some u ∧ c.Follows r u
  refuses : ∀ {c : TrailingComment} {s t}, c.Follows s t → f s = none → f t = none

theorem steady_swallowBy {f : List Char → Option (List Char)} (hf : IsSteadyTake f) : (swallowBy f).Steady := by
  intro s b r h
  rw [answer_swallowBy] at h
  cases hcase : f (trimLeft s) with
  | none =>
      rw [hcase] at h
      cases h
      refine ⟨trimLeft_suffix s, fun c t ht => ⟨_, ?_, ht.trimLeft⟩⟩
      rw [answer_swallowBy, hf.refuses ht.trimLeft hcase]
  | some v =>
      rw [hcase] at h
      cases h
      refine ⟨(hf.suffix hcase).trans (trimLeft_suffix s), fun c t ht => ?_⟩
      obtain ⟨u, hu, hvu⟩ := hf.takes ht.trimLeft hcase
      refine ⟨u, ?_, hvu⟩
      rw [answer_swallowBy, hu]

theorem isSteadyTake_dropLiteral? {literal : List Char} (hsolid : isSolid literal = true) :
    IsSteadyTake (dropLiteral? literal) where
  suffix h := ⟨literal, (dropLiteral?_eq_some.mp h).symm⟩
  takes {c s t r} ht h := by
    have hs : s ≠ [] := by
      rintro rfl
      cases literal with
      | nil => cases hsolid
      | cons d literal => cases dropLiteral?_eq_some.mp h
    refine ⟨r ++ c.chars, ?_, .behind r⟩
    rw [ht.eq_append hs, dropLiteral?_append hsolid, h]
    rfl
  refuses ht h := by
    cases ht with
    | behind =>
        rw [dropLiteral?_append hsolid, h]
        rfl
    | alone => exact dropLiteral?_slashes hsolid

theorem isIdentifierChar_of_isBlank {d : Char} (hd : isBlank d = true) : isIdentifierChar d = false := by
  refine Bool.eq_false_iff.mpr fun hword => ?_
  simp only [isIdentifierChar, isAsciiAlphanumeric, isBlank, Bool.or_eq_true, Bool.and_eq_true, beq_iff_eq,
    decide_eq_true_eq, Char.le_def, UInt32.le_iff_toNat_le, Char.toNat] at hd hword
  rcases hword with hletter | rfl
  · simp at hd hletter
    omega
  · simp at hd

theorem Follows.head_not_identifier {u : List Char} (h : c.Follows [] u) :
    ∃ d x, u = d :: x ∧ isIdentifierChar d = false := by
  cases h with
  | behind =>
      obtain ⟨d, x, hchars, hd⟩ := c.exists_chars_eq_cons
      exact ⟨d, x, hchars, isIdentifierChar_of_isBlank hd⟩
  | alone => exact ⟨'/', _, rfl, by decide⟩

theorem isSteadyTake_dropWord? {word : List Char} (hsolid : isSolid word = true) :
    IsSteadyTake (dropWord? word) where
  suffix h := ⟨word, (eq_append_of_dropWord? h).symm⟩
  takes {c s t r} ht h := by
    obtain ⟨u, hu, hru⟩ := (isSteadyTake_dropLiteral? hsolid).takes ht
      (dropLiteral?_eq_some.mpr (eq_append_of_dropWord? h))
    refine ⟨u, ?_, hru⟩
    unfold dropWord? at h ⊢
    rw [hu]
    cases r with
    | nil =>
        obtain ⟨d, x, rfl, hd⟩ := Follows.head_not_identifier hru
        simp [hd]
    | cons d r =>
        obtain rfl := hru.eq_append (List.cons_ne_nil d r)
        split at h
        · rename_i e v hv
          split at h
          · cases h
          · rename_i hends
            cases h
            exact if_neg hends
        · rename_i hv
          exact absurd h (hv d r)
  refuses {c s t} ht h := by
    unfold dropWord? at h ⊢
    split at h
    · rename_i d v hv
      obtain ⟨u, hu, hvu⟩ := (isSteadyTake_dropLiteral? hsolid).takes ht hv
      obtain rfl := hvu.eq_append (List.cons_ne_nil d v)
      rw [hu]
      split at h
      · rename_i hgoes
        exact if_pos hgoes
      · cases h
    · rw [(isSteadyTake_dropLiteral? hsolid).refuses ht h]

theorem steady_swallow {literal : List Char} (hsolid : isSolid literal = true) : (swallow literal).Steady :=
  steady_swallowBy (isSteadyTake_dropLiteral? hsolid)

theorem steady_swallowWord {word : List Char} (hsolid : isSolid word = true) : (swallowWord word).Steady :=
  steady_swallowBy (isSteadyTake_dropWord? hsolid)

theorem steady_expect {literal : List Char} (hsolid : isSolid literal = true) : (expect literal).Steady := by
  refine .bind (steady_swallow hsolid) fun b => ?_
  cases b with
  | true => exact .pure ()
  | false => exact steady_missing _

theorem isSome_dropLiteral? (literal s : List Char) :
    (dropLiteral? literal s).isSome = literal.isPrefixOf s := by
  unfold dropLiteral?
  split
  · rename_i h
    exact h.symm
  · rename_i h
    exact (Bool.eq_false_iff.mpr h).symm

theorem steady_looking {literal : List Char} (hsolid : isSolid literal = true) : (looking literal).Steady := by
  intro s b r h
  cases h
  refine ⟨trimLeft_suffix s, fun c t ht => ⟨trimLeft t, ?_, ht.trimLeft⟩⟩
  have hliteral := isSteadyTake_dropLiteral? hsolid
  have hsame : (dropLiteral? literal (trimLeft t)).isSome = (dropLiteral? literal (trimLeft s)).isSome := by
    cases hcase : dropLiteral? literal (trimLeft s) with
    | some r =>
        obtain ⟨u, hu, -⟩ := hliteral.takes ht.trimLeft hcase
        rw [hu]
        rfl
    | none => rw [hliteral.refuses ht.trimLeft hcase]
  rw [isSome_dropLiteral?, isSome_dropLiteral?] at hsame
  exact congrArg (fun b => (Except.ok b, trimLeft t)) hsame

theorem steady_swallowOneOf {table : List (List Char × α)} (hsolid : ∀ p ∈ table, isSolid p.1 = true) :
    (swallowOneOf table).Steady := by
  induction table with
  | nil => exact .bind steady_trim fun _ => .pure none
  | cons p table ih =>
      obtain ⟨hp, htable⟩ := List.forall_mem_cons.mp hsolid
      refine .bind (steady_swallowWord hp) fun b => ?_
      cases b with
      | true => exact .pure _
      | false => exact ih htable

theorem steady_identifier : identifier.Steady := by
  intro s name r h
  rw [answer_identifier] at h
  split at h
  · cases h
  · rename_i hword
    cases h
    refine ⟨(List.dropWhile_suffix _).trans (trimLeft_suffix s), fun c t ht => ?_⟩
    have hs : trimLeft s ≠ [] := by
      intro hnil
      rw [hnil] at hword
      exact hword rfl
    obtain ⟨d, x, hchars, hd⟩ := c.exists_chars_eq_cons
    have hstops : isIdentifierChar d = false := isIdentifierChar_of_isBlank hd
    have hname : (trimLeft s ++ c.chars).takeWhile isIdentifierChar = (trimLeft s).takeWhile isIdentifierChar := by
      rw [hchars, List.takeWhile_append]
      split
      · rename_i hlength
        rw [List.takeWhile_cons, hstops, if_neg Bool.false_ne_true, List.append_nil]
        have hwhole := List.takeWhile_append_dropWhile (p := isIdentifierChar) (l := trimLeft s)
        exact ((List.takeWhile_prefix _).eq_of_length hlength).symm
      · rfl
    have hwhole : (trimLeft s).takeWhile isIdentifierChar ++ (trimLeft s ++ c.chars).dropWhile isIdentifierChar =
        (trimLeft s).takeWhile isIdentifierChar ++ ((trimLeft s).dropWhile isIdentifierChar ++ c.chars) := by
      rw [← List.append_assoc, List.takeWhile_append_dropWhile, ← hname, List.takeWhile_append_dropWhile]
    have hrest := List.append_cancel_left hwhole
    refine ⟨(trimLeft s).dropWhile isIdentifierChar ++ c.chars, ?_, .behind _⟩
    rw [answer_identifier, ht.trimLeft.eq_append hs, hname, hrest, if_neg hword]

end smallest

end Lexer

end HeaderReflection
