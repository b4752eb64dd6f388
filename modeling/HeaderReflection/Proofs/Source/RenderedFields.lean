import HeaderReflection.Proofs.Attribute.NativeText
import HeaderReflection.Proofs.Source.FieldParts
import HeaderReflection.Proofs.Source.MethodParts
import HeaderReflection.Proofs.Source.TrailingComments
import HeaderReflection.Text.Lines

/-! # Fields that are written out

A field can be written out as a declaration: words for its flags, its type, its name, and what is assigned.
The text is read as the field again (`Reader.fieldOf_render`).

* The words in front of the type are found, since nothing that is left in front of a type can be taken for one
  (`FieldText.leadingWords_type`).  In the original text the type is followed by something else than in the
  new one, so it matters that the end of a word is seen within the declarator
  (`FieldText.takeWhile_declarator`).
* Type, name and initializer are cut where they were cut before (`FieldText.ofDeclaration_written`).
* Only the flags that words raise are written as words, in a fixed order and each once
  (`FieldText.raise_writtenWords`); all others come from elsewhere.

Native attributes are not written out.  So the original text may have none, and the type may not begin with
two square brackets, since then it would be taken for one. -/

namespace HeaderReflection

open Checked Text

/-! ### Leading words -/

namespace Lexer

variable {table ws us : List (List Char)} {s t r q w : List Char}

theorem LeadingWords.behind (h : LeadingWords table s ws r) :
    trimLeft r = r ∧ ∀ w ∈ table, dropWord? w r = none := by
  induction h with
  | nil hnone => exact ⟨trimLeft_trimLeft _, hnone⟩
  | cons _ _ _ ih => exact ih

theorem LeadingWords.suffix (h : LeadingWords table s ws r) : r <:+ s := by
  induction h with
  | nil => exact trimLeft_suffix _
  | cons _ hdrop _ ih =>
      exact ih.trans (.trans ⟨_, (eq_append_of_dropWord? hdrop).symm⟩ (trimLeft_suffix _))

/-- Leading words are found in one way only. -/
theorem LeadingWords.unique (htable : ∀ w ∈ table, IsWord w) (h : LeadingWords table s ws r)
    (h' : LeadingWords table s us q) : r = q ∧ ws = us := by
  induction h generalizing us with
  | nil hnone =>
      cases h' with
      | nil => exact ⟨rfl, rfl⟩
      | cons hw hdrop => cases (hnone _ hw).symm.trans hdrop
  | @cons _ t _ w _ hw hdrop _ ih =>
      cases h' with
      | nil hnone => cases (hnone _ hw).symm.trans hdrop
      | @cons _ t' _ w' _ hw' hdrop' hrest =>
          have hrun := hdrop
          have hrun' := hdrop'
          rw [dropWord?_eq (htable w hw)] at hrun
          rw [dropWord?_eq (htable w' hw')] at hrun'
          obtain rfl : w = w' := by
            split at hrun
            · rename_i hword
              split at hrun'
              · rename_i hword'
                exact hword.symm.trans hword'
              · cases hrun'
            · cases hrun
          obtain rfl := Option.some.inj (hdrop.symm.trans hdrop')
          obtain ⟨rfl, rfl⟩ := ih hrest
          exact ⟨rfl, rfl⟩

theorem LeadingWords.cons_word (htable : ∀ w ∈ table, IsWord w) (hw : w ∈ table) (h : LeadingWords table s ws r) :
    LeadingWords table (w ++ ' ' :: s) (w :: ws) r := by
  have hword := htable w hw
  have hdrop : dropWord? w (trimLeft (w ++ ' ' :: s)) = some (' ' :: s) := by
    rw [hword.trimLeft_append, dropWord?_of_word hword hword (EndsWord.of_isBlank rfl s), if_pos rfl]
  refine .cons hw hdrop ?_
  have hblank : trimLeft (' ' :: s) = trimLeft s := rfl
  cases h with
  | nil hnone =>
      rw [← hblank] at hnone ⊢
      exact .nil hnone
  | cons hw hdrop hrest =>
      rw [← hblank] at hdrop
      exact .cons hw hdrop hrest

theorem takeWhile_append_endsWord (ht : EndsWord t) (s : List Char) :
    (s ++ t).takeWhile isIdentifierChar = s.takeWhile isIdentifierChar := by
  rw [List.takeWhile_append]
  split
  · rename_i hall
    have hwhole := List.takeWhile_prefix (l := s) isIdentifierChar
    rw [ht, List.append_nil, hwhole.eq_of_length hall]
  · rfl

end Lexer

namespace FieldText

open Lexer

variable {type name d r e s : List Char}

theorem isWord_words : ∀ w ∈ words, IsWord w := by
  have hwords : ∀ w ∈ words, w ≠ [] ∧ ∀ c ∈ w, isIdentifierChar c = true := by decide
  exact hwords

theorem takeWhile_declarator (h : IsDeclarator type name d) (htrim : trimLeft (d ++ r) = d ++ r) :
    (d ++ r).takeWhile isIdentifierChar = type.takeWhile isIdentifierChar := by
  obtain ⟨u, v, w, hu, hv, -, hadmits, rfl⟩ := h.written
  have hbegins : ∀ t, trimLeft (type ++ t) = type ++ t := by
    intro t
    have honce := trimLeft_trim type
    rw [h.trimmed] at honce
    rw [TrailingComment.trimLeft_append (by rw [honce]; exact h.ne_nil), honce]
  obtain rfl : u = [] := by
    rw [List.append_assoc, trimLeft_blank_append hu, List.append_assoc, hbegins] at htrim
    have hlength := congrArg List.length htrim
    rw [List.length_append] at hlength
    exact List.eq_nil_of_length_eq_zero (by simp only [List.length_append] at hlength; omega)
  have hsplit : [] ++ (type ++ (v ++ (name ++ w))) ++ r = type ++ (v ++ (name ++ w ++ r)) := by simp
  rw [hsplit]
  cases v with
  | cons b v => exact takeWhile_append_endsWord (.of_isBlank (Bool.and_eq_true_iff.mp hv).1 _) type
  | nil =>
      -- The type ends with a character that is none of a word.
      rw [List.append_nil] at hadmits
      obtain ⟨c, t, ht⟩ := List.exists_cons_of_ne_nil (List.reverse_ne_nil_iff.mpr h.ne_nil)
      have htype : type = t.reverse ++ [c] := by
        rw [← List.reverse_reverse type, ht, List.reverse_cons]
      have hc : isIdentifierChar c = false := by
        refine Bool.eq_false_iff.mpr fun hword => ?_
        unfold AdmitsName EndsWord at hadmits
        rw [ht, List.takeWhile_cons_of_pos hword] at hadmits
        cases hadmits
      rw [htype, List.append_assoc, takeWhile_append_endsWord (.cons hc []) t.reverse]
      exact takeWhile_append_endsWord (.cons hc _) t.reverse

/-- No leading word is taken for the beginning of a type. -/
theorem leadingWords_type (h : IsDeclarator type name d) (hwords : trimLeft (d ++ r) = d ++ r ∧
    ∀ w ∈ words, dropWord? w (d ++ r) = none) (t : List Char) :
    LeadingWords words (type ++ ' ' :: t) [] (type ++ ' ' :: t) := by
  have honce := trimLeft_trim type
  rw [h.trimmed] at honce
  have hbegins : trimLeft (type ++ ' ' :: t) = type ++ ' ' :: t := by
    rw [TrailingComment.trimLeft_append (by rw [honce]; exact h.ne_nil), honce]
  have hnone : ∀ w ∈ words, dropWord? w (trimLeft (type ++ ' ' :: t)) = none := by
    intro w hw
    have hno := hwords.2 w hw
    rw [dropWord?_eq (isWord_words w hw), takeWhile_declarator h hwords.1] at hno
    rw [hbegins, dropWord?_eq (isWord_words w hw), takeWhile_append_endsWord (.of_isBlank rfl t) type]
    split at hno
    · cases hno
    · rename_i hother
      exact if_neg hother
  have hleading := LeadingWords.nil hnone
  rwa [hbegins] at hleading

/-! ### Texts that are written out -/

/-- What is written behind a name. -/
def assigned (braced : Bool) (e : List Char) : List Char :=
  if e = [] then [';'] else if braced then e ++ [';'] else ' ' :: '=' :: ' ' :: (e ++ [';'])

/-- The declaration of a field as it is written out. -/
def written (isStatic isMutable braced : Bool) (type name e : List Char) : List Char :=
  (if isStatic then "static".toList ++ [' '] else []) ++ ((if isMutable then "mutable".toList ++ [' '] else []) ++
    (type ++ ' ' :: (name ++ assigned braced e)))

/-- A declarator and what is assigned are read again as they are written out. -/
theorem ofDeclaration_written {braced : Bool} (hd : IsDeclarator type name d) (hr : IsAssignment braced e r)
    (native : Bag) (flags : FlagSet FieldFlag) :
    ofDeclaration native flags (type ++ ' ' :: (name ++ assigned braced e)) =
      .ok ⟨native, flags.insertIf braced .braceInitialized, String.ofList type, String.ofList name,
        String.ofList e⟩ := by
  have hdeclarator : ∀ {w}, isBlankText w = true → IsDeclarator type name (type ++ ' ' :: (name ++ w)) := fun hw =>
    ⟨hd.ne_nil, hd.trimmed, hd.closed, hd.encloses, hd.isWord, [], [' '], _, rfl, rfl, hw,
      .of_blank rfl (List.cons_ne_nil _ _) type, rfl⟩
  rw [ofDeclaration_eq_ok_iff]
  cases hr with
  | nothing z =>
      refine ⟨type, name, _, [], _, false, hdeclarator (w := []) rfl, .nothing [], ?_, rfl⟩
      simp [assigned]
  | equals he _ _ z =>
      refine ⟨type, name, _, e, _, false, hdeclarator (w := [' ']) rfl,
        .equals (x := [' ']) (y := []) he rfl rfl [], ?_, rfl⟩
      simp [assigned, he.ne_nil]
  | @braces e y he _ z =>
      refine ⟨type, name, _, _, _, true, hdeclarator (w := []) rfl, .braces (y := []) he rfl [], ?_, rfl⟩
      simp [assigned]

/-- The leading words that are written out. -/
def writtenWords (isStatic isMutable : Bool) : List (List Char) :=
  (if isStatic then ["static".toList] else []) ++ if isMutable then ["mutable".toList] else []

theorem leadingWords_written (hd : IsDeclarator type name d) (hwords : trimLeft (d ++ r) = d ++ r ∧
    ∀ w ∈ words, dropWord? w (d ++ r) = none) (isStatic isMutable braced : Bool) (e : List Char) :
    LeadingWords words (written isStatic isMutable braced type name e) (writtenWords isStatic isMutable)
      (type ++ ' ' :: (name ++ assigned braced e)) := by
  have htype := leadingWords_type hd hwords (name ++ assigned braced e)
  have hword : ∀ {w s ws}, w ∈ words → LeadingWords words s ws (type ++ ' ' :: (name ++ assigned braced e)) →
      LeadingWords words (w ++ ' ' :: s) (w :: ws) (type ++ ' ' :: (name ++ assigned braced e)) := fun hw h =>
    h.cons_word isWord_words hw
  have hstatic : "static".toList ∈ words := by decide
  have hmutable : "mutable".toList ∈ words := by decide
  cases isStatic with
  | false =>
      cases isMutable with
      | false => exact htype
      | true => exact hword hmutable htype
  | true =>
      cases isMutable with
      | false => exact hword hstatic htype
      | true => exact hword hstatic (hword hmutable htype)

/-- The words that are written out raise the flags that they stand for. -/
theorem raise_writtenWords {ws : List (List Char)} {isStatic isMutable : Bool}
    (hstatic : isStatic = true ↔ Raise ws .static) (hmutable : isMutable = true ↔ Raise ws .mutable) (g : FieldFlag) :
    Raise (writtenWords isStatic isMutable) g ↔ Raise ws g := by
  have hone : Raise (writtenWords isStatic isMutable) .static ↔ isStatic = true := by
    rw [raise_static]
    cases isStatic
    all_goals
      cases isMutable
      all_goals decide
  have htwo : Raise (writtenWords isStatic isMutable) .mutable ↔ isMutable = true := by
    rw [raise_mutable]
    cases isStatic
    all_goals
      cases isMutable
      all_goals decide
  by_cases hg : g ∈ [.static, .mutable]
  · rcases List.mem_cons.mp hg with rfl | hg
    · rw [hone, hstatic]
    · obtain rfl := List.mem_singleton.mp hg
      rw [htwo, hmutable]
  · exact ⟨fun h => absurd h.mem hg, fun h => absurd h.mem hg⟩

theorem trimLeft_written (hd : IsDeclarator type name d) (isStatic isMutable braced : Bool) (e : List Char) :
    trimLeft (written isStatic isMutable braced type name e) = written isStatic isMutable braced type name e := by
  have honce := trimLeft_trim type
  rw [hd.trimmed] at honce
  have htype : trimLeft (type ++ ' ' :: (name ++ assigned braced e)) = type ++ ' ' :: (name ++ assigned braced e) := by
    rw [TrailingComment.trimLeft_append (by rw [honce]; exact hd.ne_nil), honce]
  cases isStatic with
  | true => rfl
  | false =>
      cases isMutable with
      | true => rfl
      | false => exact htype

theorem trim_written (hd : IsDeclarator type name d) (isStatic isMutable braced : Bool) (e : List Char) :
    Text.trim (written isStatic isMutable braced type name e) = written isStatic isMutable braced type name e := by
  have hends : ∃ u, assigned braced e = u ++ [';'] := by
    unfold assigned
    split
    · exact ⟨[], rfl⟩
    · split
      · exact ⟨e, rfl⟩
      · exact ⟨' ' :: '=' :: ' ' :: e, rfl⟩
  obtain ⟨u, hu⟩ := hends
  have hleft := trimLeft_written hd isStatic isMutable braced e
  unfold Text.trim
  rw [hleft]
  unfold written
  rw [hu, ← List.append_assoc, ← List.append_assoc, ← List.cons_append, ← List.append_assoc, ← List.append_assoc]
  exact trimRight_append_cons rfl _ []

theorem not_native_written (hnative : ¬"[[".toList <+: type) (isStatic isMutable braced : Bool) (e : List Char) :
    ¬"[[".toList <+: written isStatic isMutable braced type name e := by
  have hplain := not_prefix_append_blank (by decide) (rfl : isBlank ' ' = true) (t := name ++ assigned braced e) hnative
  have hother : ∀ {c s}, c ≠ '[' → ¬"[[".toList <+: c :: s := by
    rintro c s hne ⟨v, hv⟩
    exact hne (List.cons.inj hv).1.symm
  cases isStatic with
  | true => exact hother (by decide)
  | false =>
      cases isMutable with
      | true => exact hother (by decide)
      | false => exact hplain

/-- The text of a field that is written out is read as the field again. -/
theorem read_written {own : List Char} {f : FieldText} (h : read.eval own = .ok f)
    (hnone : nativeAttributes.eval own = .ok []) (hnative : ¬"[[".toList <+: f.type.toList) :
    ∃ flags, read.eval (written (f.flags.has .static) (f.flags.has .mutable) (f.flags.has .braceInitialized)
        f.type.toList f.name.toList f.initializer.toList) = .ok { f with flags := flags } ∧
      ∀ g, flags.has g = f.flags.has g := by
  obtain ⟨native, behind, flags, rest, hsplit, hflags, hx⟩ := read_eq_ok_iff.mp h
  obtain rfl : native = [] := Except.ok.inj ((eval_eq_ok_of_split hsplit).symm.trans hnone)
  obtain ⟨ws, rest', out, hout, hwords, hraise⟩ := iterateOn_flagStep {} behind
  obtain ⟨hsame, rfl⟩ := Prod.mk.inj (hflags.symm.trans hout)
  obtain rfl := Except.ok.inj hsame
  obtain ⟨type, name, d, e, r, braced, hd, hr, rfl, rfl⟩ := ofDeclaration_eq_ok_iff.mp hx
  simp only [String.toList_ofList] at hnative ⊢
  -- The flags that are written out are those that the words raised.
  have hraised : ∀ g, flags.has g = true ↔ Raise ws g := fun g => (hraise g).trans (or_iff_left (by simp))
  have hunbraced : flags.has .braceInitialized = false :=
    Bool.eq_false_iff.mpr fun hb => absurd ((hraised _).mp hb).mem (by decide)
  have hstatic : (flags.insertIf braced .braceInitialized).has .static = flags.has .static := by simp
  have hmutable : (flags.insertIf braced .braceInitialized).has .mutable = flags.has .mutable := by simp
  have hbraced : (flags.insertIf braced .braceInitialized).has .braceInitialized = braced := by simp [hunbraced]
  rw [hstatic, hmutable, hbraced]
  have htrim := trimLeft_written hd (flags.has .static) (flags.has .mutable) braced e
  have hplain : ¬"[[".toList <+: written (flags.has .static) (flags.has .mutable) braced type name e :=
    not_native_written hnative _ _ _ _
  generalize htext : written (flags.has .static) (flags.has .mutable) braced type name e = text
    at htrim hplain ⊢
  have hleading := leadingWords_written hd hwords.behind (flags.has .static) (flags.has .mutable) braced e
  rw [htext] at hleading
  obtain ⟨us, rest', out, hout, hfound, hraise'⟩ := iterateOn_flagStep {} text
  obtain ⟨rfl, rfl⟩ := hfound.unique isWord_words hleading
  have hsame : ∀ g, out.has g = flags.has g := by
    intro g
    rw [Bool.eq_iff_iff, hraised, hraise', raise_writtenWords (hraised .static) (hraised .mutable)]
    exact or_iff_left (by simp)
  refine ⟨out.insertIf braced .braceInitialized, read_eq_ok_iff.mpr ?_, fun g => by simp [hsame]⟩
  have hanswer := answer_nativeAttributes (s := text) (by rwa [htrim])
  rw [htrim] at hanswer
  exact ⟨[], text, out, _, split_eq_ok.mpr hanswer, hout, ofDeclaration_written hd hr [] out⟩

end FieldText

/-! ### Fields -/

namespace Field

theorem toList_render (f : Field) :
    f.render.toList = FieldText.written (f.flags.has .static) (f.flags.has .mutable) (f.flags.has .braceInitialized)
      f.type.toList f.name.toList f.initializer.toList := by
  have hempty : f.initializer.isEmpty = true ↔ f.initializer.toList = [] := by
    rw [String.toList_eq_nil_iff, String.isEmpty_iff]
  unfold render FieldText.written FieldText.assigned
  simp only [String.toList_append, hempty, apply_ite String.toList, List.append_assoc]
  generalize f.flags.has .static = isStatic, f.flags.has .mutable = isMutable, f.flags.has .braceInitialized = braced
  by_cases hnone : f.initializer.toList = []
  · cases isStatic <;> cases isMutable <;> simp [hnone]
  · cases isStatic <;> cases isMutable <;> cases braced <;> simp [hnone]

theorem trim_render {own : List Char} {f : Field}
    (h : FieldText.Declares own f.type.toList f.name.toList f.initializer.toList) :
    Text.trim f.render.toList = f.render.toList := by
  obtain ⟨_, _, _, _, _, _, -, -, hd, -⟩ := h
  rw [toList_render]
  exact FieldText.trim_written hd _ _ _ _

theorem not_isLineEnd_render {own : List Char} {f : Field}
    (h : FieldText.Declares own f.type.toList f.name.toList f.initializer.toList)
    (hown : ∀ c ∈ own, isLineEnd c = false) : ∀ c ∈ f.render.toList, isLineEnd c = false := by
  obtain ⟨native, behind, ws, d, r, braced, hnative, hwords, hd, hr⟩ := h
  have hbehind : behind <:+ own := by
    obtain ⟨t, ht, -⟩ := Lexer.takes_nativeAttributes _ _ _ (Lexer.split_eq_ok.mp hnative)
    exact ⟨t, ht.symm⟩
  have hparts : ∀ c ∈ d ++ r, isLineEnd c = false := fun c hc =>
    hown c ((hwords.suffix.trans hbehind).subset hc)
  have hinitializer : ∀ c ∈ f.initializer.toList, isLineEnd c = false := by
    intro c hc
    generalize f.initializer.toList = e at hr hc
    refine hparts c (List.mem_append_right d ?_)
    cases hr with
    | nothing => cases hc
    | equals => simp [hc]
    | braces =>
        rw [← List.cons_append]
        exact List.mem_append_left _ hc
  obtain ⟨u, v, w, -, -, -, -, rfl⟩ := hd.written
  have htype : ∀ c ∈ f.type.toList, isLineEnd c = false := fun c hc => hparts c (by simp [hc])
  have hname : ∀ c ∈ f.name.toList, isLineEnd c = false := fun c hc => hparts c (by simp [hc])
  have hword : ∀ (b : Bool) (w : List Char), (∀ c ∈ w, isLineEnd c = false) →
      ∀ c ∈ if b then w ++ [' '] else [], isLineEnd c = false := by
    intro b w hw
    cases b with
    | true => exact List.forall_mem_append.mpr ⟨hw, by decide⟩
    | false => exact List.forall_mem_nil _
  have hassigned : ∀ b, ∀ c ∈ FieldText.assigned b f.initializer.toList, isLineEnd c = false := by
    intro b
    have hends := List.forall_mem_append.mpr ⟨hinitializer, (by decide : ∀ c ∈ [';'], isLineEnd c = false)⟩
    unfold FieldText.assigned
    split
    · decide
    · split
      · exact hends
      · exact List.forall_mem_append.mpr ⟨(by decide : ∀ c ∈ " = ".toList, isLineEnd c = false), hends⟩
  rw [toList_render]
  unfold FieldText.written
  refine List.forall_mem_append.mpr ⟨hword _ _ (by decide), List.forall_mem_append.mpr ⟨hword _ _ (by decide), ?_⟩⟩
  refine List.forall_mem_append.mpr ⟨htype, List.forall_mem_cons.mpr ⟨by decide, ?_⟩⟩
  exact List.forall_mem_append.mpr ⟨hname, hassigned _⟩

theorem render_congr {f : Field} {flags : FlagSet FieldFlag} (h : ∀ g, flags.has g = f.flags.has g) :
    ({ f with flags } : Field).render = f.render := by
  unfold render
  simp only [h]

end Field

namespace Reader

variable {r : Reader} {site : MarkerSite} {owner : Class} {access : Access} {own : List Char} {f : Field}

/-- The text that a field is written out as declares the field again, unless there are native attributes in its text or
would be in the other one. -/
theorem fieldOf_render (hf : r.fieldOf site owner access own = .ok f)
    (hnone : Lexer.nativeAttributes.eval own = .ok []) (hnative : ¬"[[".toList <+: f.type.toList) :
    ∃ flags, r.fieldOf site owner access f.render.toList = .ok { f with flags } ∧
      ∀ g, flags.has g = f.flags.has g := by
  obtain ⟨t, ht, hf⟩ := bind_eq_ok.mp hf
  have ht := lift_eq_ok.mp ht
  obtain ⟨b, hb, hf⟩ := bind_eq_ok.mp hf
  obtain ⟨displayName, hdisplay, hf⟩ := bind_eq_ok.mp hf
  obtain ⟨loadName, hload, hf⟩ := bind_eq_ok.mp hf
  obtain ⟨saveName, hsave, hf⟩ := bind_eq_ok.mp hf
  obtain ⟨choices, hchoices, hf⟩ := bind_eq_ok.mp hf
  obtain ⟨getters, hgetters, hf⟩ := bind_eq_ok.mp hf
  obtain ⟨setters, hsetters, hf⟩ := bind_eq_ok.mp hf
  obtain rfl := pure_eq_ok.mp hf
  dsimp only at hnative
  obtain ⟨flags, hread, hflags⟩ := FieldText.read_written ht hnone hnative
  have hkept : ∀ g ∈ [FieldFlag.static, .mutable, .braceInitialized], ∀ a b : Bool, ∀ s : FlagSet FieldFlag,
      (choices.flags a b (s.insertIf (!access.isPublic) .declaredPrivate)).has g = s.has g := by
    intro g hg a b s
    rw [FieldChoices.has_flags, FlagSet.has_insertIf]
    simp only [List.mem_cons, List.not_mem_nil, or_false] at hg
    rcases hg with rfl | rfl | rfl
    all_goals simp [FieldChoices.lowers, FieldChoices.raises]
  rw [Field.toList_render]
  dsimp only
  rw [hkept _ (by decide), hkept _ (by decide), hkept _ (by decide)]
  let denied (byClass : Bool) : Bool := if access.isPublic then !r.settings.accessorsForPublicFields else !byClass
  refine ⟨choices.flags (denied getters) (denied setters) (flags.insertIf (!access.isPublic) .declaredPrivate),
    bind_eq_ok.mpr ⟨_, lift_eq_ok.mpr hread, ?_⟩, fun g => ?_⟩
  · refine bind_eq_ok.mpr ⟨b, hb, bind_eq_ok.mpr ⟨displayName, hdisplay, ?_⟩⟩
    refine bind_eq_ok.mpr ⟨loadName, hload, bind_eq_ok.mpr ⟨saveName, hsave, ?_⟩⟩
    refine bind_eq_ok.mpr ⟨choices, hchoices, bind_eq_ok.mpr ⟨getters, hgetters, ?_⟩⟩
    exact bind_eq_ok.mpr ⟨setters, hsetters, rfl⟩
  · change (choices.flags (denied getters) (denied setters) _).has g =
      (choices.flags (denied getters) (denied setters) _).has g
    simp only [FieldChoices.has_flags, FlagSet.has_insertIf, hflags]

end Reader

end HeaderReflection
