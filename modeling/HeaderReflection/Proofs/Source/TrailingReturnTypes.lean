import HeaderReflection.Proofs.Source.Characters
import HeaderReflection.Proofs.Source.MethodParts
import HeaderReflection.Proofs.Source.Origins
import HeaderReflection.Proofs.Source.TrailingComments

/-! # Return types behind an arrow

Behind the arrow of a method stand its return type and the specifiers `override` and `final`.  Nothing
separates the two but that the specifiers are the last words of the text.

* They are taken off the end, `override` at most once and then `final` at most once (`Specifiers.without`),
  and only behind a space: another blank in front of a specifier keeps it from being seen.
* So only where the specifiers stand in this order is the return type what is written
  (`Specifiers.without_without_eq_nil_iff`).  In the other order one of them stays in the return type, and so
  does one that is written twice.
* The method is final if `final` is taken off.  What it assigns behind does not make it final
  (`EndsMethod.readAssigned`).

Up to the arrow such a method is a signature like any other, with `auto` for its type.  The statement on
methods of headers is `Reader.returnType_of_mem_methods`. -/

namespace HeaderReflection

open Checked Text

/-! ### Specifiers -/

namespace Text

/-- The visible characters at the end of a text. -/
def lastWord (s : List Char) : List Char := (s.reverse.takeWhile (!isBlank ·)).reverse

theorem lastWord_append {w : List Char} {b : Char} (hb : isBlank b = true) (hw : ∀ c ∈ w, isBlank c = false)
    (s : List Char) : lastWord (s ++ b :: w) = w := by
  have hvisible : ∀ c ∈ w.reverse, (!isBlank c) = true := fun c hc => by
    rw [hw c (List.mem_reverse.mp hc)]
    rfl
  unfold lastWord
  rw [List.reverse_append, List.reverse_cons, List.append_assoc, List.takeWhile_append_of_pos hvisible]
  simp [hb]

end Text

namespace MethodText

/-- A word that may stand behind a return type. -/
inductive Specifier where
  | override
  | final
  deriving DecidableEq, Repr

namespace Specifier

def text : Specifier → List Char
  | .override => "override".toList
  | .final => "final".toList

theorem text_visible (x : Specifier) : ∀ c ∈ x.text, isBlank c = false := by
  cases x
  all_goals decide

theorem text_injective {x y : Specifier} (h : x.text = y.text) : x = y := by
  cases x
  all_goals
    cases y
    all_goals first | rfl | exact absurd h (by decide)

end Specifier

/-- Specifiers with the blanks in front of them. -/
abbrev Specifiers := List (List Char × Specifier)

namespace Specifiers

def text (xs : Specifiers) : List Char := xs.flatMap fun p => p.1 ++ p.2.text

/-- The last specifier is the given one, and a space stands in front of it. -/
def endsIn (x : Specifier) (xs : Specifiers) : Bool :=
  xs.getLast?.any fun p => p.2 == x && p.1.getLast? == some ' '

/-- The specifiers without the last one, if it is the given one behind a space. -/
def without (x : Specifier) (xs : Specifiers) : Specifiers := if xs.endsIn x then xs.dropLast else xs

theorem text_concat (xs : Specifiers) (p : List Char × Specifier) :
    text (xs ++ [p]) = text xs ++ (p.1 ++ p.2.text) := by
  simp [text]

theorem endsIn_concat (x : Specifier) (xs : Specifiers) (p : List Char × Specifier) :
    endsIn x (xs ++ [p]) = (p.2 == x && p.1.getLast? == some ' ') := by
  simp [endsIn]

/-- The specifiers stand in the order in which they are taken off from behind, each at most once and behind a space. -/
def InOrder (xs : Specifiers) : Prop :=
  xs.map (·.2) ∈ [[], [.override], [.final], [.final, .override]] ∧ ∀ p ∈ xs, p.1.getLast? = some ' '

instance (xs : Specifiers) : Decidable xs.InOrder := inferInstanceAs (Decidable (_ ∧ _))

theorem text_eq_nil_iff {xs : Specifiers} : xs.text = [] ↔ xs = [] := by
  refine ⟨fun h => ?_, fun h => h ▸ rfl⟩
  cases xs with
  | nil => rfl
  | cons p xs =>
      have hword : p.2.text = [] := (List.append_eq_nil_iff.mp (List.append_eq_nil_iff.mp h).1).2
      cases hp : p.2 with
      | override => exact absurd (hp ▸ hword) (by decide)
      | final => exact absurd (hp ▸ hword) (by decide)

theorem without_eq_nil_iff {x : Specifier} {xs : Specifiers} :
    xs.without x = [] ↔ xs = [] ∨ xs.map (·.2) = [x] ∧ ∀ p ∈ xs, p.1.getLast? = some ' ' := by
  rcases List.eq_nil_or_concat xs with rfl | ⟨ys, p, rfl⟩
  · simp [without]
  · rw [List.concat_eq_append]
    unfold without
    rw [endsIn_concat, List.dropLast_concat]
    constructor
    · intro h
      split at h
      · rename_i hends
        subst h
        simpa using hends
      · simp at h
    · rintro (h | ⟨hwords, hspaces⟩)
      · simp at h
      · obtain rfl : ys = [] := List.eq_nil_of_length_eq_zero (by simpa using congrArg List.length hwords)
        have hword : p.2 = x := by simpa using hwords
        rw [if_pos (by simpa [hword] using hspaces)]

theorem map_snd_concat_iff {ys : Specifiers} {p : List Char × Specifier} (as : List Specifier) (a : Specifier) :
    (ys ++ [p]).map (·.2) = as ++ [a] ↔ ys.map (·.2) = as ∧ p.2 = a := by
  rw [List.map_append]
  constructor
  · intro h
    obtain ⟨hfront, hlast⟩ := List.append_inj' h rfl
    exact ⟨hfront, (List.cons.inj hlast).1⟩
  · rintro ⟨rfl, rfl⟩
    rfl

theorem map_snd_concat_eq_singleton_iff {ys : Specifiers} {p : List Char × Specifier} (a : Specifier) :
    (ys ++ [p]).map (·.2) = [a] ↔ ys = [] ∧ p.2 = a := by
  simpa only [List.nil_append, List.map_eq_nil_iff] using map_snd_concat_iff [] a

theorem inOrder_concat_iff {ys : Specifiers} {p : List Char × Specifier} :
    InOrder (ys ++ [p]) ↔ (p.2 = .override ∧ (ys = [] ∨ ys.map (·.2) = [.final]) ∨ p.2 = .final ∧ ys = []) ∧
      (∀ q ∈ ys, q.1.getLast? = some ' ') ∧ p.1.getLast? = some ' ' := by
  have hpair : (ys ++ [p]).map (·.2) = [.final, .override] ↔ ys.map (·.2) = [.final] ∧ p.2 = .override :=
    map_snd_concat_iff [.final] .override
  have hne : (ys ++ [p]).map (·.2) ≠ [] := by simp
  unfold InOrder
  rw [List.forall_mem_append, List.forall_mem_singleton]
  simp only [List.mem_cons, List.not_mem_nil, or_false, map_snd_concat_eq_singleton_iff, hne, false_or]
  refine and_congr_left fun _ => ⟨?_, ?_⟩
  · rintro (⟨hys, hword⟩ | ⟨hys, hword⟩ | hboth)
    · exact .inl ⟨hword, .inl hys⟩
    · exact .inr ⟨hword, hys⟩
    · obtain ⟨hys, hword⟩ := hpair.mp hboth
      exact .inl ⟨hword, .inr hys⟩
  · rintro (⟨hword, hys | hys⟩ | ⟨hword, hys⟩)
    · exact .inl ⟨hys, hword⟩
    · exact .inr (.inr (hpair.mpr ⟨hys, hword⟩))
    · exact .inr (.inl ⟨hys, hword⟩)

/-- Everything is taken off exactly if the specifiers stand in order. -/
theorem without_without_eq_nil_iff {xs : Specifiers} :
    (xs.without .override).without .final = [] ↔ xs.InOrder := by
  rw [without_eq_nil_iff]
  rcases List.eq_nil_or_concat xs with rfl | ⟨ys, p, rfl⟩
  · simp [without, endsIn, InOrder]
  · rw [List.concat_eq_append, inOrder_concat_iff]
    unfold without
    rw [endsIn_concat, List.dropLast_concat]
    split
    · rename_i hends
      simp only [Bool.and_eq_true, beq_iff_eq] at hends
      simp only [hends, true_and, and_true, reduceCtorEq, false_and, or_false]
      constructor
      · rintro (rfl | h)
        · exact ⟨.inl rfl, List.forall_mem_nil _⟩
        · exact ⟨.inr h.1, h.2⟩
      · rintro ⟨rfl | h, hspaces⟩
        · exact .inl rfl
        · exact .inr ⟨h, hspaces⟩
    · rename_i hends
      simp only [Bool.and_eq_true, beq_iff_eq, not_and] at hends
      rw [map_snd_concat_eq_singleton_iff, List.forall_mem_append, List.forall_mem_singleton]
      constructor
      · rintro (h | ⟨⟨rfl, hword⟩, hspaces⟩)
        · simp at h
        · exact ⟨.inr ⟨hword, rfl⟩, hspaces⟩
      · rintro ⟨⟨hword, -⟩ | ⟨hword, rfl⟩, hspaces⟩
        · exact absurd hspaces.2 (hends hword)
        · exact .inr ⟨⟨rfl, hword⟩, hspaces⟩

theorem endsIn_final_iff {xs : Specifiers} (h : xs.InOrder) :
    (xs.without .override).endsIn .final = true ↔ .final ∈ xs.map (·.2) := by
  obtain ⟨hwords, hspaces⟩ := h
  match xs with
  | [] => simp [without, endsIn]
  | [(g, x)] =>
      have hspace : g.getLast? = some ' ' := hspaces _ List.mem_cons_self
      cases x with
      | override => simp [without, endsIn, hspace]
      | final => simp [without, endsIn, hspace]
  | [(g, x), (g', y)] =>
      obtain ⟨hspace, hspaces⟩ := List.forall_mem_cons.mp hspaces
      have hspace' : g'.getLast? = some ' ' := hspaces _ List.mem_cons_self
      obtain ⟨rfl, rfl⟩ : x = .final ∧ y = .override := by simpa using hwords
      simp [without, endsIn, hspace, hspace']
  | p :: q :: o :: xs => simp at hwords

end Specifiers

/-! ### Taking specifiers off -/

/-- A return type that is written behind an arrow. -/
structure IsReturnType (type : List Char) : Prop where
  ne_nil : type ≠ []
  trimmed : trim type = type
  plain : ∀ c ∈ type, c ∉ "\x7b;=".toList
  lastWord : ∀ x : Specifier, lastWord type ≠ x.text

namespace IsReturnType

variable {type : List Char} {xs : Specifiers}

theorem trimLeft_append (h : IsReturnType type) (s : List Char) : trimLeft (type ++ s) = type ++ s := by
  have htrim : trimLeft type = type := by
    have htwice := trimLeft_trim type
    rwa [h.trimmed] at htwice
  rw [TrailingComment.trimLeft_append (by rw [htrim]; exact h.ne_nil), htrim]

theorem trimRight_append (h : IsReturnType type) (xs : Specifiers) :
    trimRight (type ++ xs.text) = type ++ xs.text := by
  rcases List.eq_nil_or_concat xs with rfl | ⟨ys, p, rfl⟩
  · have htrim : trimRight (trimLeft type) = type := h.trimmed
    have hleft := h.trimLeft_append []
    rw [List.append_nil] at hleft
    rw [hleft] at htrim
    exact (congrArg trimRight (List.append_nil type)).trans (htrim.trans (List.append_nil type).symm)
  · have hword : ∃ c v, p.2.text = c :: v ∧ isBlank c = false ∧ trimRight v = v := by
      cases p.2
      all_goals exact ⟨_, _, rfl, by decide, by decide⟩
    obtain ⟨c, v, hword, hc, hv⟩ := hword
    have hwhole := trimRight_append_cons hc (type ++ (Specifiers.text ys ++ p.1)) v
    rw [List.concat_eq_append, Specifiers.text_concat, hword]
    simpa [hv] using hwhole

/-- A specifier is taken off a return type only if one is written there. -/
theorem dropLastWord?_append (h : IsReturnType type) (hxs : ∀ p ∈ xs, IsGap p.1) (x : Specifier) :
    dropLastWord? x.text (type ++ xs.text) =
      if xs.endsIn x then some (type ++ Specifiers.text xs.dropLast) else none := by
  have hlast : ∀ {s}, ' ' :: x.text <:+ s → Text.lastWord s = x.text := by
    rintro s ⟨u, rfl⟩
    exact lastWord_append rfl x.text_visible u
  rcases List.eq_nil_or_concat xs with rfl | ⟨ys, p, rfl⟩
  · have hnone : ¬(' ' :: x.text <:+ type ++ Specifiers.text []) := by
      intro hsuffix
      refine h.lastWord x (hlast ?_)
      exact List.append_nil type ▸ hsuffix
    unfold dropLastWord?
    rw [if_neg fun hsuffix => hnone (List.isSuffixOf_iff_suffix.mp hsuffix)]
    rfl
  · rw [List.concat_eq_append] at hxs ⊢
    have hgap : IsGap p.1 := hxs p (by simp)
    obtain ⟨g, b, hb⟩ := (List.eq_nil_or_concat p.1).resolve_left hgap.1
    rw [List.concat_eq_append] at hb
    have hblank : isBlank b = true := List.all_eq_true.mp hgap.2 b (by rw [hb]; simp)
    have htext : type ++ Specifiers.text (ys ++ [p]) = (type ++ (Specifiers.text ys ++ g)) ++ b :: p.2.text := by
      rw [Specifiers.text_concat, hb]
      simp
    have hends : (' ' :: x.text).isSuffixOf (type ++ Specifiers.text (ys ++ [p])) =
        Specifiers.endsIn x (ys ++ [p]) := by
      rw [Bool.eq_iff_iff, List.isSuffixOf_iff_suffix, Specifiers.endsIn_concat, htext, hb]
      simp only [List.getLast?_concat, Bool.and_eq_true, beq_iff_eq, Option.some.injEq]
      constructor
      · intro hsuffix
        have hword : p.2 = x := by
          have hwords := hlast hsuffix
          rw [lastWord_append hblank p.2.text_visible] at hwords
          exact Specifier.text_injective hwords
        obtain ⟨u, hu⟩ := hsuffix
        rw [hword] at hu
        exact ⟨hword, (List.cons.inj (List.append_inj_right' hu rfl)).1.symm⟩
      · rintro ⟨rfl, rfl⟩
        exact List.suffix_append _ _
    unfold dropLastWord?
    rw [hends]
    cases hcase : Specifiers.endsIn x (ys ++ [p]) with
    | false => rfl
    | true =>
        have hword : p.2 = x := by
          rw [Specifiers.endsIn_concat, Bool.and_eq_true] at hcase
          exact eq_of_beq hcase.1
        have htake : (type ++ Specifiers.text (ys ++ [p])).take
            ((type ++ Specifiers.text (ys ++ [p])).length - x.text.length) = (type ++ Specifiers.text ys) ++ p.1 := by
          rw [Specifiers.text_concat, hword, ← List.append_assoc, ← List.append_assoc, List.length_append,
            Nat.add_sub_cancel, List.take_left]
        rw [if_pos rfl, if_pos rfl, htake, trimRight_append_blank hgap.2, h.trimRight_append, List.dropLast_concat]

/-- What is taken for the return type, and whether it is final. -/
theorem trailingType_eq (h : IsReturnType type) (hxs : ∀ p ∈ xs, IsGap p.1) {u v : List Char}
    (hu : isBlankText u = true) (hv : isBlankText v = true) :
    trailingType (u ++ (type ++ (xs.text ++ v))) =
      (type ++ ((xs.without .override).without .final).text, (xs.without .override).endsIn .final) := by
  have htrim : trim (u ++ (type ++ (xs.text ++ v))) = type ++ xs.text := by
    rw [trim_blank_append hu, ← List.append_assoc, trim_append_blank hv]
    unfold trim
    rw [h.trimLeft_append, h.trimRight_append]
  have hoverride : (dropLastWord? "override".toList (type ++ xs.text)).getD (type ++ xs.text) =
      type ++ (xs.without .override).text := by
    rw [show "override".toList = Specifier.override.text from rfl, h.dropLastWord?_append hxs]
    unfold Specifiers.without
    split
    · rfl
    · rfl
  have hys : ∀ p ∈ xs.without .override, IsGap p.1 := by
    unfold Specifiers.without
    split
    · exact fun p hp => hxs p (List.dropLast_subset xs hp)
    · exact hxs
  unfold trailingType
  rw [htrim]
  dsimp only
  rw [hoverride, show "final".toList = Specifier.final.text from rfl, h.dropLastWord?_append hys]
  generalize xs.without .override = ys
  unfold Specifiers.without
  cases ys.endsIn .final with
  | true => rfl
  | false => rfl

end IsReturnType

/-- What ends a method declaration, whatever stands behind it: a semicolon, a brace, or a zero that is assigned. -/
def EndsMethod (s : List Char) : Prop :=
  (∃ v, s = ';' :: v) ∨ (∃ v, s = '\x7b' :: v) ∨
    ∃ u v w, s = '=' :: (u ++ '0' :: (v ++ ';' :: w)) ∧ isBlankText u = true ∧ isBlankText v = true

theorem EndsMethod.exists_cons {s : List Char} (hs : EndsMethod s) : ∃ c v, s = c :: v ∧ c ∈ "\x7b;=".toList := by
  rcases hs with ⟨v, rfl⟩ | ⟨v, rfl⟩ | ⟨u, v, w, rfl, -, -⟩
  all_goals exact ⟨_, _, rfl, by decide⟩

theorem EndsMethod.readAssigned {s : List Char} (hs : EndsMethod s) (flags : FlagSet MethodFlag) :
    ∃ out r, (MethodText.readAssigned flags).answer s = (.ok out, r) ∧
      (out.has .final = true ↔ flags.has .final = true) := by
  rcases hs with ⟨v, rfl⟩ | ⟨v, rfl⟩ | ⟨u, v, w, rfl, hu, hv⟩
  · exact ⟨flags, ';' :: v, rfl, Iff.rfl⟩
  · exact ⟨flags, '\x7b' :: v, rfl, Iff.rfl⟩
  · have hends : EndsTrailers (v ++ ';' :: w) := ⟨v, ';', w, rfl, hv, by decide⟩
    obtain ⟨out, hread, hflags⟩ := answer_readAssigned_zero hu hends flags
    exact ⟨out, _, hread, by simp [hflags]⟩

/-! ### Methods with an arrow -/

/-- The parts of a method declaration with its return type behind an arrow. -/
structure TrailingReturn where
  leading : List (List Char × List Char) := []
  /-- The blanks behind `auto`. -/
  gap : List Char := [' ']
  name : List Char
  nameGap : List Char := []
  parameters : List Char
  trailing : List (List Char × Trailer) := []
  arrowGap : List Char := [' ']
  typeGap : List Char := [' ']
  type : List Char
  specifiers : Specifiers := []
  endGap : List Char := []
  /-- What ends the declaration, and what stands behind that. -/
  ending : List Char := [';']

namespace TrailingReturn

variable {w : TrailingReturn}

/-- The declaration up to the arrow. -/
def signature (w : TrailingReturn) : Signature :=
  ⟨w.leading, "auto".toList, w.gap, w.name, w.nameGap, w.parameters, w.trailing⟩

/-- What stands behind the arrow in front of the end. -/
def result (w : TrailingReturn) : List Char := w.typeGap ++ (w.type ++ (w.specifiers.text ++ w.endGap))

def text (w : TrailingReturn) : List Char :=
  w.signature.text (w.arrowGap ++ "->".toList ++ (w.result ++ w.ending))

/-- The trailers in front of the arrow are any but `final`. -/
structure IsValid (w : TrailingReturn) : Prop where
  leading : ∀ p ∈ w.leading, p.1 ∈ leadingWords.map (·.1) ∧ IsGap p.2
  gap : IsGap w.gap
  name : Lexer.IsWord w.name
  name_not_const : w.name ≠ "const".toList
  name_not_operator : w.name ≠ "operator".toList
  nameGap : isBlankText w.nameGap = true
  parameters : Lexer.IsInside .round w.parameters
  trailing : ∀ p ∈ w.trailing, IsGap p.1 ∧ p.2.IsValid ∧ p.2 ≠ .final
  arrowGap : isBlankText w.arrowGap = true
  typeGap : isBlankText w.typeGap = true
  type : IsReturnType w.type
  specifiers : ∀ p ∈ w.specifiers, IsGap p.1
  endGap : isBlankText w.endGap = true
  ending : EndsMethod w.ending

theorem IsValid.signature (hw : w.IsValid) : w.signature.IsValid where
  leading := hw.leading
  type := by
    rw [Lexer.answer_typeText]
    cbv
  type_not_word := (by decide : ∀ v ∈ leadingWords.map (·.1), Lexer.dropWord? v "auto".toList = none)
  type_not_native := (by decide : ¬"[[".toList <+: "auto".toList)
  type_not_destructor := (by decide : ¬['~'] <+: "auto".toList)
  type_not_operator := (by decide : "auto".toList ≠ "operator".toList)
  gap := hw.gap
  name := hw.name
  name_not_const := hw.name_not_const
  name_not_operator := hw.name_not_operator
  nameGap := hw.nameGap
  parameters := hw.parameters
  trailing := fun p hp => ⟨(hw.trailing p hp).1, (hw.trailing p hp).2.1⟩

theorem IsValid.result_plain (hw : w.IsValid) : ∀ d ∈ w.result, d ∉ "\x7b;=".toList := by
  have hstops : ∀ d ∈ "\x7b;=".toList, isBlank d = false := by decide
  have hblank : ∀ {u : List Char}, isBlankText u = true → ∀ d ∈ u, d ∉ "\x7b;=".toList := fun hu d hd hmem =>
    absurd ((List.all_eq_true.mp hu d hd).symm.trans (hstops d hmem)) Bool.noConfusion
  have hwords : ∀ x : Specifier, ∀ d ∈ x.text, d ∉ "\x7b;=".toList := by
    intro x
    cases x
    all_goals decide
  have hspecifiers : ∀ d ∈ w.specifiers.text, d ∉ "\x7b;=".toList := by
    intro d hd
    obtain ⟨p, hp, hd⟩ := List.mem_flatMap.mp hd
    exact (List.mem_append.mp hd).elim (hblank (hw.specifiers p hp).2 d) (hwords p.2 d)
  unfold result
  exact List.forall_mem_append.mpr ⟨hblank hw.typeGap, List.forall_mem_append.mpr ⟨hw.type.plain,
    List.forall_mem_append.mpr ⟨hspecifiers, hblank hw.endGap⟩⟩⟩

/-- The return type is what is left in front of the specifiers that are taken off, and the method is final if the last
of them says so. -/
theorem IsValid.read (hw : w.IsValid) :
    ∃ m, MethodText.read.eval w.text = .ok m ∧
      m.returnType = String.ofList (w.type ++ ((w.specifiers.without .override).without .final).text) ∧
      (m.flags.has .final = true ↔ (w.specifiers.without .override).endsIn .final = true) := by
  obtain ⟨c, v, hending, hc⟩ := hw.ending.exists_cons
  have hstop : StopsTrailers c := by
    have hall : ∀ c ∈ "\x7b;=".toList, StopsTrailers c := by decide
    exact hall c hc
  have htrim : trimLeft w.ending = w.ending := by
    rw [hending]
    exact List.dropWhile_cons_of_neg (by simp [hstop.visible])
  have harrow : EndsTrailers (w.arrowGap ++ "->".toList ++ (w.result ++ w.ending)) :=
    ⟨w.arrowGap, '-', '>' :: (w.result ++ w.ending), by simp, hw.arrowGap, by decide⟩
  obtain ⟨signed, hsignature, hsigned⟩ := hw.signature.read harrow
  have hkept : signed.has .final = false := by
    refine Bool.eq_false_iff.mpr fun hfinal => ?_
    rcases hsigned .final |>.mp hfinal with ⟨word, hlisted, -⟩ | ⟨x, hx, hflag⟩
    · have hnone : ∀ p ∈ leadingWords, p.2 ≠ .final := by decide
      exact hnone _ hlisted rfl
    · obtain ⟨p, hp, rfl⟩ := List.mem_map.mp hx
      have hother := (hw.trailing p hp).2.2
      simp [Trailer.mem_flags, hother] at hflag
  have hsplit : trimLeft (trimLeft (w.arrowGap ++ "->".toList ++ (w.result ++ w.ending))) =
      "->".toList ++ (w.result ++ w.ending) := by
    rw [trimLeft_trimLeft, List.append_assoc, trimLeft_blank_append hw.arrowGap]
    rfl
  have hresult : (Lexer.upTo "\x7b;=".toList).answer (w.result ++ w.ending) = (.ok w.result, w.ending) := by
    rw [hending]
    exact Lexer.answer_upTo hw.result_plain hc
  have htype : trailingType w.result = (w.type ++ ((w.specifiers.without .override).without .final).text,
      (w.specifiers.without .override).endsIn .final) :=
    hw.type.trailingType_eq hw.specifiers hw.typeGap hw.endGap
  obtain ⟨behind, hbehind, hbehindFlags⟩ := answer_readTrailing (z := w.ending) (List.forall_mem_nil _)
    ⟨[], c, v, hending, rfl, hstop⟩ (signed.insertIf (trailingType w.result).2 .final) rfl
  rw [htrim] at hbehind
  obtain ⟨flags, r, hassigned, hflags⟩ := hw.ending.readAssigned behind
  have hanswer : MethodText.read.answer w.text = (.ok { w.signature.meaning flags with
      returnType := String.ofList (trailingType w.result).1 }, r) := by
    rw [← read_eq]
    refine (Lexer.answer_bind_of_ok hsignature).trans ?_
    have harrowed : (readArrow signed "auto".toList).answer
        (trimLeft (w.arrowGap ++ "->".toList ++ (w.result ++ w.ending))) =
          (.ok (behind, (trailingType w.result).1), w.ending) := by
      refine (Lexer.answer_bind_of_ok (Lexer.swallow_eq_true hsplit)).trans ?_
      refine (Lexer.answer_bind_of_ok hresult).trans ?_
      exact (Lexer.answer_bind_of_ok hbehind).trans rfl
    refine (Lexer.answer_bind_of_ok harrowed).trans ?_
    exact (Lexer.answer_bind_of_ok hassigned).trans rfl
  refine ⟨_, congrArg Prod.fst hanswer, ?_, ?_⟩
  · rw [htype]
  · show flags.has .final = true ↔ _
    rw [hflags, hbehindFlags, FlagSet.has_insertIf, hkept, htype]
    simp

end TrailingReturn

end MethodText

namespace Reader

open MethodText

/-! ### Methods of headers -/

variable {r : Reader}

/-- A method has the return type of its text, and it is final if its text says so. -/
theorem methodOf_text (site : MarkerSite) (owner : Class) (access : Access) (text : List Char) :
    Yields (r.methodOf site owner access text) fun m =>
      ∃ t, MethodText.read.eval text = .ok t ∧ m.name = t.name ∧ m.returnType = t.returnType ∧
        (m.flags.has .final = true ↔ t.flags.has .final = true) := by
  refine .bind (.lift fun t ht => ht) fun t ht => ?_
  refine .bind (.any _) fun _ _ => .bind (.any _) fun _ _ => .bind (.any _) fun _ _ => ?_
  refine .bind (.any _) fun _ _ => .bind (.any _) fun _ _ => .bind (.any _) fun _ _ => .pure ?_
  exact ⟨t, ht, rfl, rfl, by simp⟩

/-- A method that is declared with its return type behind an arrow has as its return type what is left in front of
the specifiers that are taken off, and it is final if `final` is taken off.  So it is declared as it is written exactly
if the specifiers stand in order. -/
theorem returnType_of_mem_methods {path : SourcePath} {text : String} {h : Header} (hr : r.read path text = .ok h)
    {c : Class} (hc : c ∈ h.classes) {m : Method} (hm : m ∈ c.methods) {w : TrailingReturn} (hw : w.IsValid)
    (hown : r.declarationAt? (Text.lines text) m.line = some w.text) :
    m.returnType = String.ofList (w.type ++ ((w.specifiers.without .override).without .final).text) ∧
      (m.flags.has .final = true ↔ (w.specifiers.without .override).endsIn .final = true) ∧
      ((m.returnType = String.ofList w.type ∧ (m.flags.has .final = true ↔ .final ∈ w.specifiers.map (·.2))) ↔
        w.specifiers.InOrder) := by
  obtain ⟨site, owner, access, own, hsite, hline, hmade⟩ := methodOf_of_mem_methods hr hc hm
  obtain rfl : own = w.text := by
    have htext := hsite.text
    rw [hline, hown] at htext
    exact (Option.some.inj htext).symm
  obtain ⟨t, ht, -, htype, hfinal⟩ := methodOf_text site owner access w.text m hmade
  obtain ⟨t', hread, hreturn, hflag⟩ := hw.read
  obtain rfl : t = t' := Except.ok.inj (ht.symm.trans hread)
  rw [htype, hreturn, hfinal, hflag]
  refine ⟨rfl, Iff.rfl, ?_⟩
  have hkept : String.ofList (w.type ++ ((w.specifiers.without .override).without .final).text) =
      String.ofList w.type ↔ w.specifiers.InOrder := by
    rw [String.ofList_inj, ← Specifiers.without_without_eq_nil_iff, ← Specifiers.text_eq_nil_iff]
    simp
  rw [hkept]
  exact ⟨fun h => h.1, fun h => ⟨h, Specifiers.endsIn_final_iff h⟩⟩

/-- Both specifiers behind a type of several words. -/
theorem returnType_of_mem_methods_final_override :
    ∃ h c m, (Reader.ofSettings {}).read ⟨.relative, ["Unit.h"]⟩
        "RClass()\nstruct Unit \x7b\nRBody();\nRMethod()\nauto F(int a) const -> T const& final override = 0;\n\x7d;" =
          .ok h ∧ c ∈ h.classes ∧ m ∈ c.methods ∧ m.returnType = "T const&" ∧ m.flags.has .final = true := by
  have hrun : ((Reader.ofSettings {}).read ⟨.relative, ["Unit.h"]⟩
      "RClass()\nstruct Unit \x7b\nRBody();\nRMethod()\nauto F(int a) const -> T const& final override = 0;\n\x7d;"
      |>.toOption.any fun h => h.classes.any fun c => c.methods.any fun m => m.line == 4) = true := by
    rw [read_ofList]
    decide +kernel
  obtain ⟨h, hread, hrun⟩ := Checked.exists_ok_of_any hrun
  obtain ⟨c, hc, hrun⟩ := List.any_eq_true.mp hrun
  obtain ⟨m, hm, hline⟩ := List.any_eq_true.mp hrun
  let w : TrailingReturn := {
    name := "F".toList
    parameters := "int a".toList
    trailing := [([' '], .const)]
    type := "T const&".toList
    specifiers := [([' '], .final), ([' '], .override)]
    endGap := [' ']
    ending := "= 0;".toList }
  have hw : w.IsValid := {
    leading := List.forall_mem_nil _
    gap := by decide
    name := ⟨by decide, by decide⟩
    name_not_const := by decide
    name_not_operator := by decide
    nameGap := by decide
    parameters := by
      unfold Lexer.IsInside
      decide
    trailing := List.forall_mem_singleton.mpr ⟨by decide, trivial, by decide⟩
    arrowGap := by decide
    typeGap := by decide
    type := ⟨by decide, by decide, by decide, fun x => by cases x <;> decide⟩
    specifiers := by decide
    endGap := by decide
    ending := .inr (.inr ⟨[' '], [], [], rfl, by decide, by decide⟩) }
  have hown : (Reader.ofSettings {}).declarationAt? (Text.lines
      "RClass()\nstruct Unit \x7b\nRBody();\nRMethod()\nauto F(int a) const -> T const& final override = 0;\n\x7d;")
        m.line = some w.text := by
    rw [eq_of_beq hline, Text.lines_ofList]
    decide +kernel
  obtain ⟨-, -, hwritten⟩ := returnType_of_mem_methods hread hc hm hw hown
  obtain ⟨htype, hfinal⟩ := hwritten.mpr (by decide)
  exact ⟨h, c, m, hread, hc, hm, htype.trans String.ofList_toList, hfinal.mpr (by decide)⟩

/-- In the other order, or behind a tabulator, a specifier stays in the return type. -/
theorem returnType_keeps_specifiers :
    let returnTypes (text : String) := ((Reader.ofSettings {}).read ⟨.relative, ["Unit.h"]⟩ text).toOption.map fun h =>
      h.classes.map fun c => c.methods.map fun m => (m.returnType, m.flags.has .final)
    returnTypes "RClass()\nstruct Unit \x7b\nRBody();\nRMethod()\nauto F() -> int override final;\n\x7d;" =
        some [[("int override", true)]] ∧
      returnTypes "RClass()\nstruct Unit \x7b\nRBody();\nRMethod()\nauto F() -> int\tfinal;\n\x7d;" =
        some [[("int\tfinal", false)]] := by
  dsimp only
  repeat rw [read_ofList]
  decide +kernel

end Reader

end HeaderReflection
