import HeaderReflection.Proofs.Attribute.Layers
import HeaderReflection.Proofs.Source.Characters
import HeaderReflection.Proofs.Source.Reserved

/-! # Flags of fields

The flags of a field are raised and lowered by a row of steps: words in front of the type, attributes of the
field, its visibility, the settings and two attributes of its class.  They have a closed form in these
(`Reader.flags_of_mem_fields`).

* The words in front of the type are read one after the other and raise flags of two kinds only
  (`FieldText.Raise.mem`), which no attribute touches.
* The choices that attributes make are read from a valid bag, so each is the value that is found there or
  nothing (`FieldChoices.ofBearer_of_validBag`).
* Every flag is raised or not by one condition, and lowering wins (`FieldChoices.has_flags`).  An attribute
  that grants a capability wins over everything that takes it away, since it is one of the choices that keep
  the flag down.

The closed form is an invariant of reading a class (`Reader.flagsFields_invariant`): a field has it when it
joins the class, and the two attributes of the class stay as they are. -/

namespace HeaderReflection

open Checked Text

/-! ### Words in front of a declaration -/

namespace Lexer

variable {α : Type}

theorem split_eq_ok {m : Lexer α} {s r : List Char} {a : α} : m.split s = .ok (a, r) ↔ m.answer s = (.ok a, r) := by
  unfold split
  constructor
  · intro h
    split at h
    · rename_i hanswer
      cases h
      exact hanswer
    · cases h
  · intro h
    rw [h]

/-- All the words of a table that stand one after the other at the beginning of a text, and the text behind
them. -/
inductive LeadingWords (table : List (List Char)) : List Char → List (List Char) → List Char → Prop where
  | nil {s : List Char} (h : ∀ w ∈ table, dropWord? w (trimLeft s) = none) : LeadingWords table s [] (trimLeft s)
  | cons {s t r w : List Char} {ws : List (List Char)} (hw : w ∈ table) (h : dropWord? w (trimLeft s) = some t)
      (ht : LeadingWords table t ws r) : LeadingWords table s (w :: ws) r

theorem answer_swallowOneOf (table : List (List Char × α)) (s : List Char) :
    (swallowOneOf table).answer s =
      match table.findSome? fun p => (dropWord? p.1 (trimLeft s)).map fun t => (p.2, t) with
      | some (a, t) => (.ok (some a), t)
      | none => (.ok none, trimLeft s) := by
  induction table generalizing s with
  | nil => rfl
  | cons p table ih =>
      have hword := answer_swallowBy (dropWord? p.1) s
      rw [List.findSome?_cons]
      cases hdrop : dropWord? p.1 (trimLeft s) with
      | none =>
          rw [hdrop] at hword
          refine (answer_bind_of_ok hword).trans ((ih _).trans ?_)
          rw [trimLeft_trimLeft]
          rfl
      | some t =>
          rw [hdrop] at hword
          exact answer_bind_of_ok hword

end Lexer

namespace FieldText

open Lexer

/-- The words that may stand before the type of a field. -/
def words : List (List Char) := leadingWords.map (·.1)

/-- Some of the words raise the flag. -/
def Raise (ws : List (List Char)) (g : FieldFlag) : Prop := ∃ p ∈ leadingWords, p.1 ∈ ws ∧ g ∈ p.2

theorem has_foldl_insert (fs : List FieldFlag) (s : FlagSet FieldFlag) (g : FieldFlag) :
    (fs.foldl (fun s f => s.insert f) s).has g = true ↔ g ∈ fs ∨ s.has g = true := by
  induction fs generalizing s with
  | nil => simp
  | cons f fs ih =>
      rw [List.foldl_cons, ih]
      simp [or_assoc, or_left_comm]

theorem Raise.mem {ws : List (List Char)} {g : FieldFlag} (h : Raise ws g) : g ∈ [.static, .mutable] := by
  have hall : ∀ p ∈ leadingWords, ∀ g ∈ p.2, g ∈ ([.static, .mutable] : List FieldFlag) := by decide
  obtain ⟨p, hp, -, hg⟩ := h
  exact hall p hp g hg

theorem raise_static {ws : List (List Char)} : Raise ws .static ↔ "static".toList ∈ ws := by
  simp [Raise, leadingWords]

theorem raise_mutable {ws : List (List Char)} : Raise ws .mutable ↔ "mutable".toList ∈ ws := by
  simp [Raise, leadingWords]

theorem raise_cons {w : List Char} {fs : List FieldFlag} (hw : (w, fs) ∈ leadingWords) (ws : List (List Char))
    (g : FieldFlag) : Raise (w :: ws) g ↔ g ∈ fs ∨ Raise ws g := by
  have hunique : ∀ p ∈ leadingWords, ∀ q ∈ leadingWords, p.1 = q.1 → p.2 = q.2 := by decide
  constructor
  · rintro ⟨p, hp, hmem, hg⟩
    rcases List.mem_cons.mp hmem with hword | hmem
    · rw [hunique p hp _ hw hword] at hg
      exact .inl hg
    · exact .inr ⟨p, hp, hmem, hg⟩
  · rintro (hg | ⟨p, hp, hmem, hg⟩)
    · exact ⟨_, hw, List.mem_cons_self, hg⟩
    · exact ⟨p, hp, List.mem_cons_of_mem w hmem, hg⟩

/-- One step of `readFlags`. -/
def flagStep (flags : FlagSet FieldFlag) : Lexer (ForInStep (FlagSet FieldFlag)) := do
  match ← swallowOneOf leadingWords with
  | some fs => return .yield (fs.foldl (fun s f => s.insert f) flags)
  | none => return .done flags

theorem answer_flagStep (flags : FlagSet FieldFlag) (s : List Char) :
    (∃ p ∈ leadingWords, ∃ t, dropWord? p.1 (trimLeft s) = some t ∧
      (flagStep flags).answer s = (.ok (.yield (p.2.foldl (fun s f => s.insert f) flags)), t)) ∨
    (∀ w ∈ words, dropWord? w (trimLeft s) = none) ∧
      (flagStep flags).answer s = (.ok (.done flags), trimLeft s) := by
  have hanswer := answer_swallowOneOf leadingWords s
  cases hfind : leadingWords.findSome? fun p => (dropWord? p.1 (trimLeft s)).map fun t => (p.2, t) with
  | none =>
      rw [hfind] at hanswer
      refine .inr ⟨fun w hw => ?_, answer_bind_of_ok hanswer⟩
      obtain ⟨p, hp, rfl⟩ := List.mem_map.mp hw
      exact Option.map_eq_none_iff.mp (List.findSome?_eq_none_iff.mp hfind p hp)
  | some x =>
      obtain ⟨p, hp, hx⟩ := List.exists_of_findSome?_eq_some hfind
      obtain ⟨t, ht, rfl⟩ := Option.map_eq_some_iff.mp hx
      rw [hfind] at hanswer
      exact .inl ⟨p, hp, t, ht, answer_bind_of_ok hanswer⟩

/-- All leading words are taken, and they raise the flags. -/
theorem iterateOn_flagStep (flags : FlagSet FieldFlag) (s : List Char) :
    ∃ ws rest out, iterateOn flagStep flags s = (.ok out, rest) ∧ LeadingWords words s ws rest ∧
      ∀ g, out.has g = true ↔ Raise ws g ∨ flags.has g = true := by
  rcases answer_flagStep flags s with ⟨p, hp, t, hdrop, hstep⟩ | ⟨hnone, hstep⟩
  · have hshort : t.length < s.length := by
      have hne : ∀ p ∈ leadingWords, 0 < p.1.length := by decide
      have hle := length_trimLeft_le s
      rw [eq_append_of_dropWord? hdrop, List.length_append] at hle
      have hpos := hne p hp
      omega
    obtain ⟨ws, rest, out, hout, hwords, hflags⟩ := iterateOn_flagStep (p.2.foldl (fun s f => s.insert f) flags) t
    refine ⟨p.1 :: ws, rest, out, ?_, .cons (List.mem_map_of_mem hp) hdrop hwords, fun g => ?_⟩
    · rw [iterateOn, hstep]
      exact (if_pos hshort).trans hout
    · rw [hflags, has_foldl_insert, raise_cons hp, or_assoc, or_left_comm]
  · refine ⟨[], trimLeft s, flags, ?_, .nil hnone, fun g => ?_⟩
    · rw [iterateOn, hstep]
    · have hno : ¬Raise [] g := fun ⟨_, _, hmem, _⟩ => absurd hmem List.not_mem_nil
      simp [hno]
termination_by s.length

end FieldText

/-! ### Choices -/

/-- A reading of a valid bag finds a truth value or nothing. -/
theorem Bearer.bool?_of_validBag {b : Bearer} (hb : ValidBag b.kind b.attributes) {a : Attribute}
    (ha : a ∈ Attribute.known) (hcheck : a.check ≠ .reflectedEnum) :
    b.bool? a = .ok ((b.find? a).bind Value.bool?) := by
  unfold bool?
  rw [lookup?_of_validBag hb ha hcheck]
  rfl

theorem Bearer.find?_of_name {b : Bearer} {a : Attribute} {name : String} (ha : a.names = [name]) {v : Value}
    (hv : v ≠ .null) : b.find? a = some v ↔ b.attributes.get? name = some v := by
  unfold find?
  rw [ha, List.findSome?_cons, List.findSome?_nil]
  cases b.attributes.get? name with
  | none => simp
  | some w =>
      cases w with
      | null => simp [hv.symm]
      | _ => simp

theorem Attribute.bool_of_fault? {a : Attribute} (hcheck : a.check = .bool) {isEnum : String → Bool}
    {k : DeclarationKind} {v : Value} (h : a.fault? isEnum k v = none) : ∃ x, v = .bool x := by
  unfold Attribute.fault? at h
  split at h
  · rw [hcheck] at h
    cases v with
    | bool x => exact ⟨x, rfl⟩
    | _ => cases h
  · cases h

theorem Bearer.lookup_of_bool {b : Bearer} {a : Attribute} (hcheck : a.check = .bool) {d : Bool}
    (hd : a.default = .bool d) {x : Bool} (h : b.bool a = .ok x) : b.lookup b.isEnum a = .ok (.bool x) := by
  unfold bool lookup lookup? at h
  unfold lookup lookup?
  cases hfind : b.find? a with
  | none =>
      rw [hfind] at h
      obtain rfl := Except.ok.inj h
      show Except.ok a.default = .ok (.bool (a.default.bool?.getD false))
      rw [hd]
      rfl
  | some v =>
      rw [hfind] at h
      dsimp only at h ⊢
      cases hfault : a.fault? b.isEnum b.kind v with
      | some f =>
          rw [hfault] at h
          cases h
      | none =>
          rw [hfault] at h
          obtain ⟨y, rfl⟩ := Attribute.bool_of_fault? hcheck hfault
          obtain rfl := Except.ok.inj h
          rfl

namespace FieldChoices

@[simp] theorem denies_eq_true {v : Option Value} : denies (v.bind Value.bool?) = true ↔ v = some (.bool false) := by
  rcases v with _ | (_ | (_ | _) | _ | _ | _ | _ | _) <;> simp [denies, Value.bool?]

@[simp] theorem grants_eq_true {v : Option Value} : grants (v.bind Value.bool?) = true ↔ v = some (.bool true) := by
  rcases v with _ | (_ | (_ | _) | _ | _ | _ | _ | _) <;> simp [grants, Value.bool?]

/-- The choices lower the flag, whatever raises it. -/
def lowers (c : FieldChoices) : FieldFlag → Bool
  | .noGetter => grants c.getter
  | .noSetter => grants c.setter
  | .noEdit => grants c.editor
  | .noSave => grants c.saved
  | .noLoad => grants c.loaded
  | _ => false

/-- The choices, or visibility and class, raise the flag. -/
def raises (c : FieldChoices) (noGetters noSetters : Bool) : FieldFlag → Bool
  | .noGetter => denies c.getter || noGetters || grants c.isPrivate || grants c.scriptPrivate
  | .noSetter => denies c.setter || noSetters || grants c.isPrivate || grants c.transient || grants c.scriptPrivate
  | .noEdit => denies c.editor || grants c.isPrivate
  | .noScript => denies c.script
  | .noSave => denies c.saved || denies c.serialize || grants c.transient
  | .noLoad => denies c.loaded || denies c.serialize || grants c.transient
  | .required => grants c.required
  | .noUniqueAddress => grants c.noUniqueAddress
  | _ => false

/-- Every flag is raised or not by one condition, and lowering wins. -/
theorem has_flags (c : FieldChoices) (noGetters noSetters : Bool) (s : FlagSet FieldFlag) (g : FieldFlag) :
    (c.flags noGetters noSetters s).has g = (!c.lowers g && (c.raises noGetters noSetters g || s.has g)) := by
  cases g <;> simp [flags, lowers, raises] <;> grind

/-- The choices that values make. -/
def ofFound (find : Attribute → Option Value) : FieldChoices where
  getter := (find .getter).bind Value.bool?
  setter := (find .setter).bind Value.bool?
  editor := (find .editor).bind Value.bool?
  script := (find .script).bind Value.bool?
  saved := (find .saved).bind Value.bool?
  loaded := (find .loaded).bind Value.bool?
  serialize := (find .serialize).bind Value.bool?
  isPrivate := (find .privateField).bind Value.bool?
  transient := (find .transient).bind Value.bool?
  scriptPrivate := (find .scriptPrivate).bind Value.bool?
  required := (find .required).bind Value.bool?
  noUniqueAddress := (find .noUniqueAddress).bind Value.bool?

/-- The attributes that choices are read from. -/
def consulted : List Attribute :=
  [.getter, .setter, .editor, .script, .saved, .loaded, .serialize, .privateField, .transient, .scriptPrivate,
    .required, .noUniqueAddress]

/-- The choices of a valid bag are those of the values that are found in it. -/
theorem ofBearer_of_validBag {b : Bearer} (hb : ValidBag b.kind b.attributes) :
    ofBearer b = .ok (ofFound b.find?) := by
  have hknown : ∀ a ∈ consulted, a ∈ Attribute.known ∧ a.check ≠ .reflectedEnum := by decide +kernel
  have hread : ∀ a ∈ consulted, b.bool? a = .ok ((b.find? a).bind Value.bool?) :=
    fun a ha => b.bool?_of_validBag hb (hknown a ha).1 (hknown a ha).2
  simp only [consulted, List.forall_mem_cons] at hread
  obtain ⟨hgetter, hsetter, heditor, hscript, hsaved, hloaded, hserialize, hprivate, htransient, hscriptPrivate,
    hrequired, haddress, -⟩ := hread
  unfold ofBearer
  rw [hgetter, hsetter, heditor, hscript, hsaved, hloaded, hserialize, hprivate, htransient, hscriptPrivate,
    hrequired, haddress]
  rfl

end FieldChoices

/-! ### Fields as they are made -/

namespace FieldText

open Lexer

theorem ofDeclaration_eq_ok {native : Bag} {flags : FlagSet FieldFlag} {s : List Char} {t : FieldText}
    (h : ofDeclaration native flags s = .ok t) :
    t.native = native ∧ ∃ braced, t.flags = flags.insertIf braced .braceInitialized := by
  obtain ⟨⟨declarator, initializer, braced⟩, _, h⟩ := bind_eq_ok.mp h
  obtain ⟨⟨type, name⟩, _, h⟩ := bind_eq_ok.mp h
  obtain rfl := pure_eq_ok.mp h
  exact ⟨rfl, braced, rfl⟩

theorem read_eq_ok_iff {text : List Char} {t : FieldText} : read.eval text = .ok t ↔
    ∃ native behind flags rest, nativeAttributes.split text = .ok (native, behind) ∧
      iterateOn flagStep {} behind = (.ok flags, rest) ∧ ofDeclaration native flags rest = .ok t := by
  constructor
  · intro h
    obtain ⟨r, h⟩ : ∃ r, read.answer text = (.ok t, r) := ⟨_, Prod.ext h rfl⟩
    obtain ⟨native, behind, hnative, h⟩ := bind_answer_eq_ok.mp h
    obtain ⟨flags, rest, hflags, h⟩ := bind_answer_eq_ok.mp h
    obtain ⟨_, _, hrest, h⟩ := bind_answer_eq_ok.mp h
    cases hrest
    split at h
    · rename_i hx
      cases h
      exact ⟨native, behind, flags, rest, split_eq_ok.mpr hnative, hflags, hx⟩
    · cases h
  · rintro ⟨native, behind, flags, rest, hnative, hflags, hx⟩
    have hread : read.answer text = _ := answer_bind_of_ok (split_eq_ok.mp hnative)
    have hwords : readFlags.answer behind = (.ok flags, rest) := hflags
    have hrest : Lexer.rest.answer rest = (.ok rest, []) := rfl
    unfold eval
    rw [hread, answer_bind_of_ok hwords, answer_bind_of_ok hrest, hx]
    rfl

theorem read_words {text : List Char} {t : FieldText} (h : read.eval text = .ok t) :
    ∃ behind ws rest, nativeAttributes.split text = .ok (t.native, behind) ∧ LeadingWords words behind ws rest ∧
      ∀ g ≠ .braceInitialized, t.flags.has g = true ↔ Raise ws g := by
  obtain ⟨native, behind, flags, rest, hnative, hflags, hx⟩ := read_eq_ok_iff.mp h
  obtain ⟨ws, rest', out, hout, hwords, hraise⟩ := iterateOn_flagStep {} behind
  obtain ⟨hsame, rfl⟩ := Prod.mk.inj (hflags.symm.trans hout)
  obtain rfl := Except.ok.inj hsame
  obtain ⟨rfl, braced, hbraced⟩ := ofDeclaration_eq_ok hx
  refine ⟨behind, ws, rest, hnative, hwords, fun g hg => ?_⟩
  rw [hbraced, FlagSet.has_insertIf, ← (hraise g).trans (or_iff_left (by simp))]
  simp [hg]

end FieldText

/-- The flags of a field.  `own` are the attributes of the field, `owner` those of its class. -/
structure Field.DerivesFlags (f : Field) (s : Settings) (own owner : Bearer) : Prop where
  /-- Looking an attribute up gives the value that is found for it. -/
  lookup : ∀ a ∈ Attribute.known, a.check ≠ .reflectedEnum → own.lookup? own.isEnum a = .ok (own.find? a)
  /-- The class grants or denies accessors to fields that are not public. -/
  accessors : ∃ getters setters, owner.lookup owner.isEnum .privateGetters = .ok (.bool getters) ∧
    owner.lookup owner.isEnum .privateSetters = .ok (.bool setters)
  noGetter : f.flags.has .noGetter = true ↔ own.find? .getter ≠ some (.bool true) ∧
    (own.find? .getter = some (.bool false) ∨
      (f.access.isPublic = false ∧ owner.lookup owner.isEnum .privateGetters = .ok (.bool false)) ∨
      (f.access.isPublic = true ∧ s.accessorsForPublicFields = false) ∨
      own.find? .privateField = some (.bool true) ∨ own.find? .scriptPrivate = some (.bool true))
  noSetter : f.flags.has .noSetter = true ↔ own.find? .setter ≠ some (.bool true) ∧
    (own.find? .setter = some (.bool false) ∨
      (f.access.isPublic = false ∧ owner.lookup owner.isEnum .privateSetters = .ok (.bool false)) ∨
      (f.access.isPublic = true ∧ s.accessorsForPublicFields = false) ∨
      own.find? .privateField = some (.bool true) ∨ own.find? .transient = some (.bool true) ∨
      own.find? .scriptPrivate = some (.bool true))
  noEdit : f.flags.has .noEdit = true ↔ own.find? .editor ≠ some (.bool true) ∧
    (own.find? .editor = some (.bool false) ∨ own.find? .privateField = some (.bool true))
  noSave : f.flags.has .noSave = true ↔ own.find? .saved ≠ some (.bool true) ∧
    (own.find? .saved = some (.bool false) ∨ own.find? .serialize = some (.bool false) ∨
      own.find? .transient = some (.bool true))
  noLoad : f.flags.has .noLoad = true ↔ own.find? .loaded ≠ some (.bool true) ∧
    (own.find? .loaded = some (.bool false) ∨ own.find? .serialize = some (.bool false) ∨
      own.find? .transient = some (.bool true))
  noScript : f.flags.has .noScript = true ↔ own.find? .script = some (.bool false)
  declaredPrivate : f.flags.has .declaredPrivate = true ↔ f.access = .subclasses ∨ f.access = .owner
  required : f.flags.has .required = true ↔ own.find? .required = some (.bool true)

/-- The flags of a field that its text alone decides about: those of the words in front of the type, and the one
of a native attribute. -/
def Field.WritesFlags (f : Field) (text : List Char) : Prop :=
  ∃ native behind ws rest, Lexer.nativeAttributes.split text = .ok (native, behind) ∧
    Lexer.LeadingWords FieldText.words behind ws rest ∧
    (f.flags.has .static = true ↔ "static".toList ∈ ws) ∧
    (f.flags.has .mutable = true ↔ "mutable".toList ∈ ws) ∧
    (f.flags.has .noUniqueAddress = true ↔ native.get? "NoUniqueAddress" = some (.bool true))

namespace Field

open FieldChoices

variable {f : Field} {s : Settings} {own owner : Bearer}

/-- Visibility and class deny a field accessors: `byClass` says that the class grants them to fields that are not
public. -/
def denied (f : Field) (s : Settings) (byClass : Bool) : Bool :=
  if f.access.isPublic then !s.accessorsForPublicFields else !byClass

/-- How the flags of a field are put together from those of its text. -/
structure PutsFlags (f : Field) (t : FieldText) (s : Settings) (own owner : Bearer) (getters setters : Bool) :
    Prop where
  valid : ValidBag own.kind own.attributes
  ofGetters : owner.lookup owner.isEnum .privateGetters = .ok (.bool getters)
  ofSetters : owner.lookup owner.isEnum .privateSetters = .ok (.bool setters)
  flags : f.flags = (ofFound own.find?).flags (f.denied s getters) (f.denied s setters)
    (t.flags.insertIf (!f.access.isPublic) .declaredPrivate)

variable {t : FieldText} {getters setters : Bool}

theorem denied_eq_true {a : Attribute} {x : Bool} (hx : owner.lookup owner.isEnum a = .ok (.bool x)) :
    f.denied s x = true ↔ (f.access.isPublic = false ∧ owner.lookup owner.isEnum a = .ok (.bool false)) ∨
      (f.access.isPublic = true ∧ s.accessorsForPublicFields = false) := by
  rw [hx]
  unfold denied
  cases f.access.isPublic with
  | true => simp
  | false => simp

/-- Choices, visibility and class alone decide about a flag that no word raises. -/
theorem PutsFlags.has_iff (h : f.PutsFlags t s own owner getters setters) {g : FieldFlag}
    (hword : t.flags.has g = false) (hg : g ≠ .declaredPrivate) :
    f.flags.has g = true ↔ ¬(ofFound own.find?).lowers g = true ∧
      (ofFound own.find?).raises (f.denied s getters) (f.denied s setters) g = true := by
  rw [h.flags, has_flags, FlagSet.has_insertIf, hword]
  simp [hg]

theorem PutsFlags.has_of_word (h : f.PutsFlags t s own owner getters setters) {g : FieldFlag}
    (hg : g = .static ∨ g = .mutable) : f.flags.has g = t.flags.has g := by
  rw [h.flags, has_flags, FlagSet.has_insertIf]
  rcases hg with rfl | rfl
  · simp [lowers, raises]
  · simp [lowers, raises]

theorem PutsFlags.derives (h : f.PutsFlags t s own owner getters setters)
    (hfree : ∀ g, g ∉ [.static, .mutable, .braceInitialized] → t.flags.has g = false) :
    f.DerivesFlags s own owner where
  lookup := fun a ha hcheck => Bearer.lookup?_of_validBag h.valid ha hcheck _
  accessors := ⟨getters, setters, h.ofGetters, h.ofSetters⟩
  noGetter := by
    rw [h.has_iff (hfree _ (by decide)) (by decide)]
    simp [lowers, raises, ofFound, denied_eq_true h.ofGetters, or_assoc]
  noSetter := by
    rw [h.has_iff (hfree _ (by decide)) (by decide)]
    simp [lowers, raises, ofFound, denied_eq_true h.ofSetters, or_assoc]
  noEdit := by
    rw [h.has_iff (hfree _ (by decide)) (by decide)]
    simp [lowers, raises, ofFound]
  noSave := by
    rw [h.has_iff (hfree _ (by decide)) (by decide)]
    simp [lowers, raises, ofFound, or_assoc]
  noLoad := by
    rw [h.has_iff (hfree _ (by decide)) (by decide)]
    simp [lowers, raises, ofFound, or_assoc]
  noScript := by
    rw [h.has_iff (hfree _ (by decide)) (by decide)]
    simp [lowers, raises, ofFound]
  declaredPrivate := by
    have hplain : (ofFound own.find?).lowers .declaredPrivate = false := rfl
    have hraised : (ofFound own.find?).raises (f.denied s getters) (f.denied s setters)
      .declaredPrivate = false := rfl
    rw [h.flags, has_flags, FlagSet.has_insertIf, hplain, hraised, hfree _ (by decide)]
    cases f.access <;> simp [Access.isPublic]
  required := by
    rw [h.has_iff (hfree _ (by decide)) (by decide)]
    simp [lowers, raises, ofFound]

end Field

namespace Reader

open Attribute

variable {r : Reader}

theorem fieldOf_putsFlags {site : MarkerSite} {owner : Class} {access : Access} {text : List Char} {f : Field}
    (hf : r.fieldOf site owner access text = .ok f) :
    ∃ t getters setters, FieldText.read.eval text = .ok t ∧
      f.PutsFlags t r.settings (f.bearer .field owner.path r.isEnum) (owner.bearer .classType owner.path r.isEnum)
        getters setters := by
  obtain ⟨t, ht, hf⟩ := bind_eq_ok.mp hf
  obtain ⟨b, hb, hf⟩ := bind_eq_ok.mp hf
  obtain ⟨displayName, _, hf⟩ := bind_eq_ok.mp hf
  obtain ⟨loadName, _, hf⟩ := bind_eq_ok.mp hf
  obtain ⟨saveName, _, hf⟩ := bind_eq_ok.mp hf
  obtain ⟨choices, hchoices, hf⟩ := bind_eq_ok.mp hf
  obtain ⟨getters, hgetters, hf⟩ := bind_eq_ok.mp hf
  obtain ⟨setters, hsetters, hf⟩ := bind_eq_ok.mp hf
  obtain ⟨_, hvalid, hb⟩ := bind_eq_ok.mp hb
  obtain rfl := pure_eq_ok.mp hb
  have hvalid := Bearer.validBag_of_validate hvalid
  obtain rfl := Except.ok.inj ((FieldChoices.ofBearer_of_validBag hvalid).symm.trans hchoices)
  obtain rfl := pure_eq_ok.mp hf
  exact ⟨t, getters, setters, lift_eq_ok.mp ht, hvalid, Bearer.lookup_of_bool rfl rfl hgetters,
    Bearer.lookup_of_bool rfl rfl hsetters, rfl⟩

/-- The flags of a field are derived from its attributes and from its text as it is made, if only the text can
bring reserved attributes. -/
theorem fieldOf_flags {site : MarkerSite} {owner : Class} {access : Access} {text : List Char} {f : Field}
    (hsettable : IsSettable ((r.settings.defaults.fields.merge owner.defaultFieldAttributes).merge site.attributes))
    (hf : r.fieldOf site owner access text = .ok f) :
    f.DerivesFlags r.settings (f.bearer .field owner.path r.isEnum) (owner.bearer .classType owner.path r.isEnum) ∧
      f.WritesFlags text := by
  obtain ⟨t, getters, setters, ht, hflags⟩ := fieldOf_putsFlags hf
  obtain ⟨u, hu, hmade⟩ := fieldOf_makes site owner access text f hf
  obtain rfl : t = u := Except.ok.inj (ht.symm.trans hu)
  obtain ⟨behind, ws, rest, hnative, hwords, hraise⟩ := FieldText.read_words ht
  have hfree : ∀ g, g ∉ [.static, .mutable, .braceInitialized] → t.flags.has g = false := by
    intro g hg
    have hbraced : g ≠ .braceInitialized := by
      rintro rfl
      exact hg (by decide)
    refine Bool.eq_false_iff.mpr fun hhas => hg ?_
    exact List.mem_append_left [.braceInitialized] ((hraise g hbraced).mp hhas).mem
  refine ⟨hflags.derives hfree, t.native, behind, ws, rest, hnative, hwords, ?_, ?_, ?_⟩
  · rw [hflags.has_of_word (.inl rfl), hraise _ (by decide), FieldText.raise_static]
  · rw [hflags.has_of_word (.inr rfl), hraise _ (by decide), FieldText.raise_mutable]
  · have hnodup := nativeAttributes_nodup.of_eval (Lexer.eval_eq_ok_of_split hnative)
    have hother : ((r.settings.defaults.fields.merge owner.defaultFieldAttributes).merge site.attributes).get?
        "NoUniqueAddress" = none := by
      refine (Keyed.get?_eq_none_iff _ _).mpr fun hmem => ?_
      have hreserved : isReserved "NoUniqueAddress" = true := isReserved_iff.mpr (by decide)
      exact absurd ((hsettable _ hmem).symm.trans hreserved) Bool.false_ne_true
    have hnative : (f.bearer .field owner.path r.isEnum).attributes.get? "NoUniqueAddress" =
        t.native.get? "NoUniqueAddress" := by
      refine (congrArg (Keyed.get? · "NoUniqueAddress") hmade.attributes).trans ?_
      rw [Keyed.get?_merge _ hnodup, hother, Option.or_none]
    rw [hflags.has_iff (hfree _ (by decide)) (by decide)]
    simp [FieldChoices.lowers, FieldChoices.raises, FieldChoices.ofFound, FieldChoices.grants_eq_true,
      Bearer.find?_of_name (a := .noUniqueAddress) rfl, hnative]

/-- The flags of the fields of a class have the form that the class and the text give them. -/
structure FlagsFields (r : Reader) (lines : List String) (c : Class) : Prop where
  defaults : IsSettable c.defaultFieldAttributes
  fields : ∀ f ∈ c.fields,
    f.DerivesFlags r.settings (f.bearer .field c.path r.isEnum) (c.bearer .classType c.path r.isEnum) ∧
      ∃ own, r.declarationAt? lines f.line = some own ∧ f.WritesFlags own

/-! ### Fields of headers -/

theorem flagsFields_invariant {path : SourcePath} {lines : List String}
    (hdefaults : SettableDefaults r.settings.defaults) : r.ClassInvariant path lines (r.FlagsFields lines) where
  declare := by
    intro site text c _ hc
    obtain ⟨_, -, hc⟩ := classOf_makes site text c hc
    refine ⟨isSettable_of_rejectUnsettable hc.defaultFields, fun f hf => ?_⟩
    rw [hc.fields] at hf
    exact absurd hf List.not_mem_nil
  body := fun _ hc => ⟨hc.defaults, hc.fields⟩
  field := by
    intro site access text c f hsite hc hf
    refine ⟨hc.defaults, fun g hg => ?_⟩
    rcases List.mem_append.mp hg with hg | hg
    · exact hc.fields g hg
    · obtain rfl := List.mem_singleton.mp hg
      obtain ⟨hderives, hwrites⟩ :=
        fieldOf_flags ((hdefaults.fields.merge hc.defaults).merge (isSettable_of_isListBag hsite.attributes)) hf
      obtain ⟨_, -, hmade⟩ := fieldOf_makes site c access text g hf
      exact ⟨hderives, text, hmade.line ▸ hsite.text, hwrites⟩
  method := by
    intro site access text c d m _ hc _ hd
    obtain ⟨ps, rfl⟩ := claimProperties_yields c m d hd
    exact ⟨hc.defaults, hc.fields⟩

/-- The flags of every field of a header have a closed form in its attributes, its visibility, the attributes of
its class, the settings, and the text that declares it. -/
theorem flags_of_mem_fields {path : SourcePath} {text : String} {h : Header} (hr : r.read path text = .ok h)
    {c : Class} (hc : c ∈ h.classes) {f : Field} (hf : f ∈ c.fields) :
    f.DerivesFlags r.settings (f.bearer .field c.path r.isEnum) (c.bearer .classType c.path r.isEnum) ∧
      ∃ own, r.declarationAt? (Text.lines text) f.line = some own ∧ f.WritesFlags own :=
  (read_classes (flagsFields_invariant (settableDefaults_of_read hr)) hr c hc).fields f hf

/-- A private field that is granted its getter has it, against the attributes of its class. -/
theorem flags_of_mem_fields_protected :
    ∃ (h : Header) (c : Class) (f : Field) (own : List Char),
      (Reader.ofSettings {}).read ⟨.relative, ["Unit.h"]⟩ ("RClass(PrivateGetters = false)\nstruct Unit \x7b\n" ++
          "RBody();\nprotected:\nRField(Private, Getter = true)\nstatic int a;\n\x7d;") = .ok h ∧
        c ∈ h.classes ∧ f ∈ c.fields ∧ f.flags.has .noGetter = false ∧ f.flags.has .noSetter = true ∧
        f.DerivesFlags {} (f.bearer .field c.path Bearer.noEnum) (c.bearer .classType c.path Bearer.noEnum) ∧
        f.WritesFlags own := by
  have hrun : ((Reader.ofSettings {}).read ⟨.relative, ["Unit.h"]⟩
        ("RClass(PrivateGetters = false)\nstruct Unit \x7b\n" ++
          "RBody();\nprotected:\nRField(Private, Getter = true)\nstatic int a;\n\x7d;")
      |>.toOption.any fun h => h.classes.any fun c => c.fields.any fun f =>
        !f.flags.has .noGetter && f.flags.has .noSetter) = true := by
    rw [read_ofList_append]
    decide +kernel
  obtain ⟨h, hread, hrun⟩ := Checked.exists_ok_of_any hrun
  obtain ⟨c, hc, hrun⟩ := List.any_eq_true.mp hrun
  obtain ⟨f, hf, hrun⟩ := List.any_eq_true.mp hrun
  obtain ⟨hgetter, hsetter⟩ := Bool.and_eq_true_iff.mp hrun
  obtain ⟨hderives, own, -, hwrites⟩ := flags_of_mem_fields hread hc hf
  exact ⟨h, c, f, own, hread, hc, hf, by simpa using hgetter, hsetter, hderives, hwrites⟩

end Reader

end HeaderReflection
