import HeaderReflection.Attribute.Native
import HeaderReflection.Proofs.Lexer.Takes

/-! # How native attributes are written

A native group is written between double brackets: native attributes with commas between them, each of them a
spelling and perhaps arguments in parentheses.

* `NativeSpelling`, `NativeItem` and `NativeItems` are the ways to write a spelling, an attribute, and
  attributes with a comma behind each of them; `NativeGroup` is a whole group.
* `WritesNative s n` says that some group in the text `s` lists the spelling `n`.  It stays so in every text
  around `s` (`WritesNative.mono`).
* `NativeRead.Records` is the invariant of reading a group: what has been read is recorded under names that
  the spellings stand for, and spellings that are not allowed are noted.

What is read of native attributes is recorded under names that spellings in the text stand for
(`takes_nativeAttributes`), so the name of a reserved attribute is there only for a spelling that the
attribute is known by (`NativeBag`).  The other direction does not hold: a spelling that stands for no
attribute is recorded under its own name, and one that is written twice is recorded once. -/

namespace HeaderReflection

open Lexer Text

/-! ### Spellings and groups -/

/-- A native spelling as it is written: words with double colons between them. -/
inductive NativeSpelling : List Char → List Char → Prop where
  | word {u w : List Char} (hu : isBlankText u = true) (hw : IsWord w) : NativeSpelling (u ++ w) w
  | within {t name u v w : List Char} (h : NativeSpelling t name) (hu : isBlankText u = true)
      (hv : isBlankText v = true) (hw : IsWord w) :
      NativeSpelling (t ++ (u ++ "::".toList ++ (v ++ w))) (name ++ "::".toList ++ w)

/-- A native attribute as it is written: a spelling, and perhaps arguments in parentheses. -/
inductive NativeItem : List Char → String → Prop where
  | plain {t name u : List Char} (h : NativeSpelling t name) (hu : isBlankText u = true) :
      NativeItem (t ++ u) (String.ofList name)
  | arguments {t name u inner v : List Char} (h : NativeSpelling t name) (hu : isBlankText u = true)
      (hinner : IsInside .round inner) (hv : isBlankText v = true) :
      NativeItem (t ++ u ++ ('(' :: inner ++ [')']) ++ v) (String.ofList name)

theorem NativeSpelling.blank_append {u t name : List Char} (hu : isBlankText u = true)
    (h : NativeSpelling t name) : NativeSpelling (u ++ t) name := by
  induction h with
  | word hv hw =>
      rw [← List.append_assoc]
      exact .word (isBlankText_append hu hv) hw
  | within _ hv hx hw ih =>
      rw [← List.append_assoc]
      exact .within ih hv hx hw

theorem NativeItem.blank_append {u t : List Char} {name : String} (hu : isBlankText u = true)
    (h : NativeItem t name) : NativeItem (u ++ t) name := by
  cases h with
  | plain h hv =>
      rw [← List.append_assoc]
      exact .plain (h.blank_append hu) hv
  | arguments h hv hinner hw =>
      rw [← List.append_assoc, ← List.append_assoc, ← List.append_assoc u]
      exact .arguments (h.blank_append hu) hv hinner hw

theorem NativeItem.append_blank {t u : List Char} {name : String} (h : NativeItem t name)
    (hu : isBlankText u = true) : NativeItem (t ++ u) name := by
  cases h with
  | plain h hv =>
      rw [List.append_assoc]
      exact .plain h (isBlankText_append hv hu)
  | arguments h hv hinner hw =>
      rw [List.append_assoc]
      exact .arguments h hv hinner (isBlankText_append hw hu)

/-- Native attributes, each of them followed by a comma, and their spellings. -/
inductive NativeItems : List Char → List String → Prop where
  | nil : NativeItems [] []
  | concat {t i : List Char} {names : List String} {name : String} (h : NativeItems t names)
      (hi : NativeItem i name) : NativeItems (t ++ (i ++ [','])) (names ++ [name])

/-- A native group and its spellings; the last of them may be followed by a comma. -/
inductive NativeGroup : List Char → List String → Prop where
  | trailing {t u : List Char} {names : List String} (h : NativeItems t names)
      (hu : isBlankText u = true) : NativeGroup ("[[".toList ++ (t ++ u) ++ "]]".toList) names
  | closed {t i : List Char} {names : List String} {name : String} (h : NativeItems t names)
      (hi : NativeItem i name) : NativeGroup ("[[".toList ++ (t ++ i) ++ "]]".toList) (names ++ [name])

/-! ### Texts with native attributes -/

/-- A native group in the text lists the spelling. -/
def WritesNative (s : List Char) (name : String) : Prop :=
  ∃ group names, NativeGroup group names ∧ group <:+: s ∧ name ∈ names

theorem WritesNative.mono {s t : List Char} {name : String} (h : WritesNative s name) (hst : s <:+: t) :
    WritesNative t name := by
  obtain ⟨group, names, hgroup, hs, hname⟩ := h
  exact ⟨group, names, hgroup, hs.trans hst, hname⟩

/-! ### What is recorded -/

namespace Attribute

/-- The name under which a native spelling is recorded. -/
def nativeKey (name : String) : String := ((nativeNames.lookup name).map Attribute.name).getD name

/-- A reserved name that is used as a native spelling. -/
def IsForged (name : String) : Prop := nativeNames.lookup name = none ∧ isReserved name = true

/-- What has been read of native attributes is recorded for spellings with a property; names that may
not be used as spellings are noted. -/
def NativeRead.Records (r : NativeRead) (W : String → Prop) : Prop :=
  ∀ k ∈ r.bag.keys, ∃ n, W n ∧ k = nativeKey n ∧ (IsForged n → n ∈ r.forged)

theorem NativeRead.Records.mono {r : NativeRead} {V W : String → Prop} (hr : r.Records V)
    (h : ∀ n, V n → W n) : r.Records W := by
  intro k hk
  obtain ⟨n, hn, hkey, hforged⟩ := hr k hk
  exact ⟨n, h n hn, hkey, hforged⟩

theorem NativeRead.Records.put {r : NativeRead} {W : String → Prop} (hr : r.Records W) (name : String)
    (v : Value) :
    NativeRead.Records
      ⟨r.bag.put (nativeKey name) v,
        if (nativeNames.lookup name).isNone && isReserved name then r.forged ++ [name] else r.forged⟩
      fun n => W n ∨ n = name := by
  intro k hk
  have hold : ∀ n, n ∈ r.forged → n ∈ if (nativeNames.lookup name).isNone && isReserved name then
      r.forged ++ [name] else r.forged := by
    intro n hn
    split
    · exact List.mem_append_left _ hn
    · exact hn
  rcases Keyed.mem_keys_put.mp hk with rfl | hk
  · refine ⟨name, .inr rfl, rfl, ?_⟩
    rintro ⟨hlookup, hreserved⟩
    simp [hlookup, hreserved]
  · obtain ⟨n, hn, hkey, hforged⟩ := hr k hk
    exact ⟨n, .inl hn, hkey, fun h => hold n (hforged h)⟩

/-- The attributes with reserved names stand there for native spellings of theirs in a text. -/
def NativeBag (s : List Char) (bag : Bag) : Prop :=
  ∀ k ∈ bag.keys, isReserved k = true →
    ∃ n a, nativeNames.lookup n = some a ∧ a.name = k ∧ WritesNative s n

theorem NativeBag.mono {s t : List Char} {bag : Bag} (h : NativeBag s bag) (hst : s <:+: t) :
    NativeBag t bag := by
  intro k hk hreserved
  obtain ⟨n, a, hn, ha, hs⟩ := h k hk hreserved
  exact ⟨n, a, hn, ha, hs.mono hst⟩

end Attribute

namespace Lexer

open Attribute

/-! ### Reading native attributes -/

theorem takes_nativeName : nativeName.Takes fun t name =>
    ∃ s u, t = s ++ u ∧ NativeSpelling s name ∧ isBlankText u = true := by
  refine .bind takes_identifier ?_
  rintro _ first ⟨hword, u, hu, rfl⟩
  refine .iterate (R := fun t name => NativeSpelling (u ++ first ++ t) name) ?_ ?_
  · intro t name hname
    refine .bind (takes_swallow "::".toList) ?_
    rintro _ b ⟨v, hv, rfl⟩
    cases b with
    | true =>
        refine .bind takes_identifier ?_
        rintro _ w ⟨hw, x, hx, rfl⟩
        refine .pure ⟨?_, fun h => ?_⟩
        · have hwithin := NativeSpelling.within hname hv hx hw
          simpa using hwithin
        · simp at h
    | false =>
        refine .pure ⟨u ++ first ++ t, v, ?_, hname, hv⟩
        simp
  · rw [List.append_nil]
    exact .word hu hword

theorem takes_nativeAttribute {r : NativeRead} {W : String → Prop} (hr : r.Records W) :
    (nativeAttribute r).Takes fun t q => ∃ name, NativeItem t name ∧ q.Records fun n => W n ∨ n = name := by
  refine .bind takes_nativeName ?_
  rintro _ name ⟨s, u, rfl, hname, hu⟩
  refine .bind (takes_looking ['(']) fun v b hv => ?_
  have hblank := isBlankText_append hu hv
  cases b with
  | true =>
      refine .bind (takes_balanced .round) ?_
      rintro _ inner ⟨w, hw, hinner, rfl⟩
      dsimp only
      split
      · refine .pure ⟨String.ofList name, ?_, hr.put (String.ofList name) _⟩
        have hnothing : isBlankText [] = true := rfl
        have harguments :
            NativeItem (s ++ (u ++ v ++ w) ++ ('(' :: inner ++ [')']) ++ []) (String.ofList name) :=
          .arguments hname (isBlankText_append hblank hw) hinner hnothing
        simpa [Bracket.opener, Bracket.closer] using harguments
      · exact .throw_bind _
  | false =>
      refine .pure ⟨String.ofList name, ?_, hr.put (String.ofList name) _⟩
      have hplain := NativeItem.plain hname hblank
      simpa using hplain

theorem takes_nativeGroup {r : NativeRead} {W : String → Prop} (hr : r.Records W) :
    (nativeGroup r).Takes fun t q =>
      ∃ names, NativeGroup ("[[".toList ++ t) names ∧ q.Records fun n => W n ∨ n ∈ names := by
  refine .iterate (R := fun t q => ∃ names, NativeItems t names ∧ q.Records fun n => W n ∨ n ∈ names) ?_ ?_
  · rintro t p ⟨names, hitems, hp⟩
    refine .bind (takes_swallow "]]".toList) ?_
    rintro _ b ⟨u, hu, rfl⟩
    cases b with
    | true =>
        refine .pure ⟨names, ?_, hp⟩
        have hgroup := NativeGroup.trailing hitems hu
        simpa using hgroup
    | false =>
        refine .bind (takes_nativeAttribute hp) ?_
        rintro i q ⟨name, hi, hq⟩
        have hq : q.Records fun n => W n ∨ n ∈ names ++ [name] := by
          refine hq.mono fun n hn => ?_
          rw [List.mem_append, List.mem_singleton, ← or_assoc]
          exact hn
        refine .bind (takes_swallow [',']) ?_
        rintro _ b ⟨v, hv, rfl⟩
        have hitem := (hi.blank_append hu).append_blank hv
        cases b with
        | true =>
            refine .pure ⟨⟨names ++ [name], ?_, hq⟩, fun h => ?_⟩
            · have hmore := hitems.concat hitem
              simpa using hmore
            · simp at h
        | false =>
            refine .bind (takes_expect "]]".toList) ?_
            rintro _ _ ⟨w, hw, rfl⟩
            refine .pure ⟨names ++ [name], ?_, hq⟩
            have hgroup := NativeGroup.closed hitems (hitem.append_blank hw)
            simpa using hgroup
  · exact ⟨[], .nil, hr.mono fun n hn => .inl hn⟩

/-- What is read of native attributes is recorded for spellings in the text that is taken. -/
theorem takes_nativeAttributes : nativeAttributes.Takes NativeBag := by
  refine .bind (P := fun t r => r.Records (WritesNative t)) ?_ fun t r hr => ?_
  · refine .iterate (R := fun t r => r.Records (WritesNative t)) ?_ ?_
    · intro t r hr
      refine .bind (takes_swallow "[[".toList) ?_
      rintro _ b ⟨u, hu, rfl⟩
      cases b with
      | true =>
          refine .bind (takes_nativeGroup hr) ?_
          rintro v q ⟨names, hgroup, hq⟩
          refine .pure ⟨hq.mono ?_, fun h => ?_⟩
          · rintro n (hn | hn)
            · exact hn.mono (List.prefix_append t _).isInfix
            · exact ⟨_, names, hgroup, ⟨t ++ u, [], by simp⟩, hn⟩
          · simp at h
      | false => exact .pure (hr.mono fun n hn => hn.mono (List.prefix_append t _).isInfix)
    · intro k hk
      exact absurd hk List.not_mem_nil
  · refine .ite (fun hforged => .pure ?_) fun _ => .throw _
    intro k hk hreserved
    obtain ⟨n, hn, rfl, hnoted⟩ := hr k hk
    rw [List.append_nil]
    cases hlookup : nativeNames.lookup n with
    | some a => exact ⟨n, a, hlookup, by simp [nativeKey, hlookup], hn⟩
    | none =>
        have hkey : nativeKey n = n := by simp [nativeKey, hlookup]
        have hmem := hnoted ⟨hlookup, hkey ▸ hreserved⟩
        rw [List.isEmpty_iff.mp hforged] at hmem
        exact absurd hmem List.not_mem_nil

end Lexer

end HeaderReflection
