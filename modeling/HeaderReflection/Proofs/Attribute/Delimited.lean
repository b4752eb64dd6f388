import HeaderReflection.Attribute.Native
import HeaderReflection.Proofs.Attribute.ReadBack
import HeaderReflection.Proofs.Lexer.Groups

/-! # Attribute lists between brackets

Two readers look for the end of an attribute list.  One takes the text between the parentheses (`balanced`):
it counts brackets and leaves out what stands in quotes.  The other one reads the members.  They agree if both
see the same quotes close.

* A list that is written as `WritesMembers` has it is balanced, its quoted strings and keys being literals
  (`WritesMembers.isDelimited`).  The proof follows the ways to write values, one case for each of them.
* Taking a group finds the end of every balanced text whose literals are plain, that is, have no backslash
  right before the closing quote.  So the parentheses around a list delimit just this list, and what stands
  behind them is left (`balanced_agrees_with_literals`).

That no string ends with a backslash cannot be left out.  Taking a group looks one character back to tell an
escaped quote from a closing one, so it goes on behind a quote that stands behind an escaped backslash
(`balanced_fails_behind_backslash`), while the reader of strings takes a backslash together with the character
that it escapes. -/

namespace HeaderReflection

/-! ### The strings in a value -/

namespace Value

mutual

/-- The strings in a value, the keys of objects among them. -/
def texts : Value → List String
  | .str s => [s]
  | .array vs => itemTexts vs
  | .object m => memberTexts m
  | .null | .bool _ | .int _ | .float _ => []

/-- The strings in the items of an array. -/
def itemTexts : List Value → List String
  | [] => []
  | v :: vs => v.texts ++ itemTexts vs

/-- The keys of an object and the strings in its values. -/
def memberTexts : List (String × Value) → List String
  | [] => []
  | (k, v) :: m => k :: (v.texts ++ memberTexts m)

end

end Value

namespace Attribute

open Text

/-! ### Quoted strings are literals -/

theorem skipLiteral?_plain {q c : Char} (hq : c ≠ q) (hb : c ≠ '\\') (s : List Char) :
    skipLiteral? q (c :: s) = skipLiteral? q s := by
  rw [skipLiteral?]
  · exact if_neg hq
  · exact fun h _ => hb h
  · exact fun e v h _ => hb h

theorem skipLiteral?_close {q : Char} (hq : isQuote q = true) (s : List Char) : skipLiteral? q (q :: s) = some s := by
  have hb := ne_backslash_of_isQuote hq
  rw [skipLiteral?]
  · exact if_pos rfl
  · exact fun h _ => hb h
  · exact fun e v h _ => hb h

theorem isLiteral_of_writesChars {q : Char} (hq : isQuote q = true) {t s : List Char} (h : WritesChars q t s) :
    IsLiteral q (t ++ [q]) := by
  refine ⟨hq, ?_⟩
  induction h with
  | nil => exact skipLiteral?_close hq []
  | plain hc hb _ ih => exact (skipLiteral?_plain hc hb _).trans ih
  | escaped _ _ ih => exact ih
  | named _ _ ih => exact ih

theorem singleton_suffix_cons {x c : Char} {t : List Char} : [x] <:+ c :: t ↔ (c = x ∧ t = []) ∨ [x] <:+ t := by
  rw [List.suffix_cons_iff, List.cons.injEq, eq_comm (a := x), eq_comm (a := [])]

/-- A backslash is the last of the characters only if it is the last of the string. -/
theorem backslash_suffix_of_writesChars {q : Char} {t s : List Char} (h : WritesChars q t s)
    (ht : ['\\'] <:+ t) : ['\\'] <:+ s := by
  induction h with
  | nil => exact ht
  | plain _ hb _ ih =>
      rcases singleton_suffix_cons.mp ht with ⟨rfl, -⟩ | ht
      · exact absurd rfl hb
      · exact (ih ht).trans (List.suffix_cons _ _)
  | @escaped c t s _ h ih =>
      rcases singleton_suffix_cons.mp ht with ⟨-, hnil⟩ | ht
      · cases hnil
      · rcases singleton_suffix_cons.mp ht with ⟨rfl, rfl⟩ | ht
        · cases h
          exact List.suffix_rfl
        · exact (ih ht).trans (List.suffix_cons _ _)
  | @named e c t s hc _ ih =>
      have he : e ≠ '\\' := by
        rintro rfl
        have hall : ∀ p ∈ namedEscapes, p.1 ≠ '\\' := by decide
        exact hall _ hc rfl
      rcases singleton_suffix_cons.mp ht with ⟨-, hnil⟩ | ht
      · cases hnil
      · rcases singleton_suffix_cons.mp ht with ⟨hbackslash, -⟩ | ht
        · exact absurd hbackslash he
        · exact (ih ht).trans (List.suffix_cons _ _)

/-! ### Lists are balanced -/

/-- A text that parentheses delimit. -/
abbrev IsDelimited (t : List Char) : Prop := Bracket.round.IsBalanced IsPlainLiteral t

/-- A class of characters without quotes and parentheses. -/
theorem isPlain_of {p : Char → Bool} (hp : "\"'()".toList.any p = false) {c : Char} (hc : p c = true) :
    Bracket.round.IsPlain c := by
  have hne : ∀ d ∈ "\"'()".toList, c ≠ d := by
    rintro d hd rfl
    exact List.any_eq_false.mp hp c hd hc
  refine ⟨?_, hne '(' (by decide), hne ')' (by decide)⟩
  simp [isQuote, hne '"' (by decide), hne '\'' (by decide)]

theorem isPlain_symbol {c : Char} (hc : "[]\x7b\x7d,=:".toList.contains c = true) : Bracket.round.IsPlain c :=
  isPlain_of (by decide) hc

theorem isDelimited_of_isBlankText {u : List Char} (hu : isBlankText u = true) : IsDelimited u :=
  .of_forall fun _ hc => isPlain_of (by decide) (List.all_eq_true.mp hu _ hc)

theorem IsUnbroken.isDelimited {w : List Char} (h : IsUnbroken w) : IsDelimited w := by
  induction h with
  | nil => exact .nil
  | char hc _ ih => exact .char (isPlain_of (by decide) hc) ih
  | colons _ ih => exact .char (isPlain_symbol (by decide)) (.char (isPlain_symbol (by decide)) ih)

theorem WritesQuoted.isDelimited {t s : List Char} (h : WritesQuoted t s) (hs : ¬['\\'] <:+ s) : IsDelimited t := by
  obtain @⟨q, t, _, hq, hchars⟩ := h
  have hplain : ¬['\\', q] <:+ t ++ [q] := fun h =>
    hs (backslash_suffix_of_writesChars hchars ((List.suffix_append_inj_of_length_eq rfl).mp h).1)
  have hliteral : IsDelimited (q :: (t ++ [q] ++ [])) := .literal ⟨isLiteral_of_writesChars hq hchars, hplain⟩ .nil
  rwa [List.append_nil] at hliteral

theorem WritesKey.isDelimited {t : List Char} {k : String} (h : WritesKey t k) (hk : ¬['\\'] <:+ k.toList) :
    IsDelimited t := by
  cases h with
  | bare _ ht => exact .of_forall fun c hc => isPlain_of (by decide) (ht c hc)
  | quoted h => exact h.isDelimited (by rwa [String.toList_ofList] at hk)

mutual

theorem WritesValue.isDelimited {t : List Char} {v : Value} (h : WritesValue t v)
    (hv : ∀ s ∈ v.texts, ¬['\\'] <:+ s.toList) : IsDelimited t := by
  cases h with
  | null => exact IsUnbroken.isDelimited (.of_all (by decide))
  | bool b =>
      refine IsUnbroken.isDelimited (.of_all ?_)
      cases b <;> decide
  | integer h => exact h.isUnbroken.isDelimited
  | quoted h =>
      refine h.isDelimited ?_
      simpa [Value.texts] using hv
  | bare h => exact h.isUnbroken.isDelimited
  | array h =>
      rw [Value.texts] at hv
      exact .char (isPlain_symbol (by decide)) ((h.isDelimited hv).append (.char (isPlain_symbol (by decide)) .nil))
  | object h =>
      rw [Value.texts] at hv
      exact .char (isPlain_symbol (by decide)) ((h.isDelimited hv).append (.char (isPlain_symbol (by decide)) .nil))

theorem WritesItems.isDelimited {t : List Char} {vs : List Value} (h : WritesItems t vs)
    (hv : ∀ s ∈ Value.itemTexts vs, ¬['\\'] <:+ s.toList) : IsDelimited t := by
  cases h with
  | nil hu => exact isDelimited_of_isBlankText hu
  | last hu hw h =>
      rw [Value.itemTexts, Value.itemTexts, List.append_nil] at hv
      exact (isDelimited_of_isBlankText hu).append ((h.isDelimited hv).append (isDelimited_of_isBlankText hw))
  | cons hu hw h hs =>
      rw [Value.itemTexts, List.forall_mem_append] at hv
      exact (isDelimited_of_isBlankText hu).append ((h.isDelimited hv.1).append
        ((isDelimited_of_isBlankText hw).append (.char (isPlain_symbol (by decide)) (hs.isDelimited hv.2))))

theorem WritesMember.isDelimited {t : List Char} {p : String × Value} (h : WritesMember t p)
    (hp : ∀ s ∈ p.1 :: p.2.texts, ¬['\\'] <:+ s.toList) : IsDelimited t := by
  obtain ⟨hk, hv⟩ := List.forall_mem_cons.mp hp
  cases h with
  | alone h => exact h.isDelimited hk
  | @assigned t u w x e k v h hu he hw hx =>
      have hsign : Bracket.round.IsPlain e := by
        rcases he with rfl | rfl
        · exact isPlain_symbol (by decide)
        · exact isPlain_symbol (by decide)
      exact (h.isDelimited hk).append ((isDelimited_of_isBlankText hu).append
        (.char hsign ((isDelimited_of_isBlankText hw).append (hx.isDelimited hv))))

theorem WritesMembers.isDelimited {t : List Char} {m : List (String × Value)} (h : WritesMembers t m)
    (hm : ∀ s ∈ Value.memberTexts m, ¬['\\'] <:+ s.toList) : IsDelimited t := by
  cases h with
  | nil hu => exact isDelimited_of_isBlankText hu
  | last hu hw h =>
      rw [Value.memberTexts, Value.memberTexts, List.append_nil] at hm
      exact (isDelimited_of_isBlankText hu).append ((h.isDelimited hm).append (isDelimited_of_isBlankText hw))
  | cons hu hw h hs =>
      rw [Value.memberTexts, ← List.cons_append, List.forall_mem_append] at hm
      exact (isDelimited_of_isBlankText hu).append ((h.isDelimited hm.1).append
        ((isDelimited_of_isBlankText hw).append (.char (isPlain_symbol (by decide)) (hs.isDelimited hm.2))))

end

end Attribute

namespace Lexer

open Attribute

/-! ### Groups and literals -/

/-- Taking a group agrees with the syntax of literals on every balanced text in which no closing quote stands
behind a backslash.  So a list that was written, with no string in it that ends with a backslash, is read between
parentheses as the members that were written, and what stands behind the list is left. -/
theorem balanced_agrees_with_literals (r : List Char) :
    (∀ (b : Bracket) (s : List Char), b.IsBalanced IsPlainLiteral s →
      (balanced b).answer (b.opener :: (s ++ b.closer :: r)) = (.ok s, r)) ∧
    ∀ (t : List Char) (m : Bag), WritesMembers t m → m.keys.Nodup →
      (∀ s ∈ Value.memberTexts m, ¬['\\'] <:+ s.toList) →
      attributeList.answer ('(' :: (t ++ ')' :: r)) = ((Catalog.standard.rejectUnsettable m).map fun () => m, r) := by
  refine ⟨fun b s h => answer_balanced_of_isBalanced h r, fun t m h hm htexts => ?_⟩
  have hgroup : (balanced .round).answer ('(' :: (t ++ ')' :: r)) = (.ok t, r) :=
    answer_balanced_of_isBalanced (h.isDelimited htexts) r
  rw [attributeList, answer_bind_of_ok hgroup, readObject_of_answers (answers_of_writesMembers_text h hm)]
  dsimp only
  cases Catalog.standard.rejectUnsettable m with
  | ok => rfl
  | error e => rfl

theorem balanced_agrees_with_literals_nested :
    (balanced .round).answer "(f(\"\\\")\", ')')) x".toList = (.ok "f(\"\\\")\", ')')".toList, " x".toList) ∧
    attributeList.answer "(Name = \"a)\\\"\") int x;".toList = (.ok [("Name", .str "a)\"")], " int x;".toList) := by
  have hliterals : Bracket.round.IsBalanced IsPlainLiteral "\"\\\")\", ')'".toList :=
    .literal (l := "\\\")\"".toList) ⟨⟨rfl, rfl⟩, by decide⟩
      (.char (isPlain_symbol (by decide)) (.char (isPlain_of (p := Text.isBlank) (by decide) (by decide))
        (.literal (l := ")'".toList) ⟨⟨rfl, rfl⟩, by decide⟩ .nil)))
  have hcall : Bracket.round.IsBalanced IsPlainLiteral "f(\"\\\")\", ')')".toList :=
    .char (isPlain_of (p := isKeyChar) (by decide) (by decide)) (.group hliterals .nil)
  have hname : WritesMember "Name = \"a)\\\"\"".toList ("Name", .str "a)\"") :=
    .assigned (t := "Name".toList) (u := [' ']) (w := [' ']) (.bare (by decide) (List.all_eq_true.mp (by decide))) rfl
      (.inl rfl) rfl (.quoted (.mk (q := '"') rfl (.plain (by decide) (by decide) (.plain (by decide) (by decide)
        (.escaped (.inl rfl) .nil)))))
  exact ⟨(balanced_agrees_with_literals " x".toList).1 .round _ hcall,
    (balanced_agrees_with_literals " int x;".toList).2 _ _ (.last (u := []) (w := []) rfl rfl hname) (by decide)
      (by decide)⟩

/-- The literal of a single backslash is closed, but taking a group does not find its end. -/
theorem balanced_fails_behind_backslash :
    ¬∀ s r : List Char, Bracket.round.IsBalanced IsLiteral s →
      (balanced .round).answer ('(' :: (s ++ ')' :: r)) = (.ok s, r) := by
  intro h
  have hliteral : Bracket.round.IsBalanced IsLiteral "\"\\\\\"".toList :=
    .literal (l := "\\\\\"".toList) ⟨by decide, by decide⟩ .nil
  have hanswer :
      (balanced .round).answer ('(' :: ("\"\\\\\"".toList ++ [')'])) = (.error (.missingCloser ')'), _) := rfl
  exact absurd (hanswer.symm.trans (h _ [] hliteral)) nofun

end Lexer

end HeaderReflection
