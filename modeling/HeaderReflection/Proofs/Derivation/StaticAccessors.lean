import HeaderReflection.Proofs.Derivation.FieldMethods
import HeaderReflection.Proofs.Source.Characters

/-! # Accessors of static fields

A static field belongs to the class and not to an object, so what reads and writes it should be static too and
should not name it through `this`.

* The getter and the setter of a static field are static and name the member by its bare name; those of
  another field name it through the object (`Class.namesThroughThis_getterMethod`,
  `Class.namesThroughThis_setterMethod`).
* The methods for flags make no such difference.  They are never static and always name the member through the
  object, also for a static field (`Class.namesThroughThis_flagMethod`), so not every method made from a
  static field is static (`Class.not_static_of_static_field`).
* No method made from a field is both static and constant.

That a body names a member through the object means that its first statement does so: the text `this->` and
the name come first, or only a `return` stands before them (`Method.NamesThroughThis`).  The name of a static
field stands in the same place alone.  It is a word, so the proofs look at where words end to tell the two
apart. -/

namespace HeaderReflection

open Checked

/-- The body of a method begins with a statement that names a member through the object. -/
def Method.NamesThroughThis (m : Method) (member : String) : Prop :=
  ∃ opening ∈ ["", "return ", "return ("], (opening ++ "this->" ++ member).toList <+: m.body.toList

/-! ### Words in front of a text -/

namespace Lexer

/-- Two words with something else behind them are the same if one text begins with the other. -/
theorem IsWord.eq_of_isPrefix {p q w t : List Char} (hp : IsWord p) (hw : IsWord w) (hq : EndsWord q) (hne : q ≠ [])
    (ht : EndsWord t) (h : p ++ q <+: w ++ t) : p = w ∧ q <+: t := by
  obtain ⟨r, hr⟩ := h
  obtain ⟨c, q, rfl⟩ := List.exists_cons_of_ne_nil hne
  have hc : Text.isIdentifierChar c = false := by
    refine Bool.eq_false_iff.mpr fun hc => ?_
    unfold EndsWord at hq
    rw [List.takeWhile_cons_of_pos hc] at hq
    cases hq
  rw [List.append_assoc, List.cons_append] at hr
  have htake := congrArg (List.takeWhile Text.isIdentifierChar) hr
  have hdrop := congrArg (List.dropWhile Text.isIdentifierChar) hr
  rw [hp.takeWhile_append (.cons hc _), hw.takeWhile_append ht] at htake
  rw [hp.dropWhile_append (.cons hc _), hw.dropWhile_append ht] at hdrop
  exact ⟨htake, r, hdrop⟩

end Lexer

/-! ### Getters and setters -/

namespace Class

variable {x : PlanContext} {c : Class} {i : Nat} {f : Field}

theorem not_isPrefix_this {w t name : List Char} (hw : Lexer.IsWord w) (ht : Lexer.EndsWord t)
    (h : ¬['-', '>'] <+: t) : ¬"this->".toList ++ name <+: w ++ t := by
  intro hprefix
  have hthis : Lexer.IsWord "this".toList := ⟨by decide, by decide⟩
  have hsplit : "this->".toList ++ name = "this".toList ++ ('-' :: '>' :: name) := rfl
  rw [hsplit] at hprefix
  have harrow := (hthis.eq_of_isPrefix hw (.cons (by decide) _) (List.cons_ne_nil _ _) ht hprefix).2
  exact h ((List.prefix_append ['-', '>'] name).trans harrow)

theorem namesThroughThis_getterMethod (hname : Lexer.IsWord f.name.toList) :
    (getterMethod x c i f).NamesThroughThis f.name ↔ f.flags.has .static = false := by
  have hbody : (getterMethod x c i f).body = "return " ++ memberText f ++ ";" := rfl
  unfold Method.NamesThroughThis memberText at *
  rw [hbody]
  cases hstatic : f.flags.has .static with
  | false =>
      refine iff_of_true ⟨"return ", by simp, ?_⟩ rfl
      rw [if_neg Bool.false_ne_true]
      simp [String.toList_append]
  | true =>
      refine iff_of_false ?_ nofun
      rw [if_pos rfl]
      rintro ⟨opening, hopening, hprefix⟩
      simp only [List.mem_cons, List.not_mem_nil, or_false] at hopening
      rcases hopening with rfl | rfl | rfl
      · simp at hprefix
      · have hrest : "this->".toList ++ f.name.toList <+: f.name.toList ++ [';'] := by
          simpa [List.append_assoc] using hprefix
        exact not_isPrefix_this hname (.cons (by decide) []) (by decide) hrest
      · have hrest : '(' :: ("this->".toList ++ f.name.toList) <+: f.name.toList ++ [';'] := by
          simpa [List.append_assoc] using hprefix
        exact hname.not_cons_isPrefix_append (by decide) _ _ hrest

theorem namesThroughThis_setterMethod (hname : Lexer.IsWord f.name.toList) :
    (setterMethod x c i f f.onChange).NamesThroughThis f.name ↔ f.flags.has .static = false := by
  have hbody : (setterMethod x c i f f.onChange).body = memberText f ++ " = value;" ++ f.changeCode :=
    withOnChange_onChange f _
  unfold Method.NamesThroughThis memberText at *
  rw [hbody]
  cases hstatic : f.flags.has .static with
  | false =>
      refine iff_of_true ⟨"", by simp, ?_⟩ rfl
      rw [if_neg Bool.false_ne_true]
      simp [String.toList_append]
  | true =>
      refine iff_of_false ?_ nofun
      rw [if_pos rfl]
      rintro ⟨opening, hopening, hprefix⟩
      simp only [List.mem_cons, List.not_mem_nil, or_false] at hopening
      have hreturn : Lexer.IsWord "return".toList := ⟨by decide, by decide⟩
      have hend : Lexer.EndsWord (" = value;".toList ++ f.changeCode.toList) := .cons (by decide) _
      rcases hopening with rfl | rfl | rfl
      · have hrest : "this->".toList ++ f.name.toList <+:
            f.name.toList ++ (" = value;".toList ++ f.changeCode.toList) := by
          simpa [List.append_assoc] using hprefix
        exact not_isPrefix_this hname hend (by simp) hrest
      · have hrest : "return".toList ++ (' ' :: ("this->".toList ++ f.name.toList)) <+:
            f.name.toList ++ (" = value;".toList ++ f.changeCode.toList) := by
          simpa [List.append_assoc] using hprefix
        have hblank := (hreturn.eq_of_isPrefix hname (.cons (by decide) _) (List.cons_ne_nil _ _) hend hrest).2
        simp at hblank
      · have hrest : "return".toList ++ (' ' :: '(' :: ("this->".toList ++ f.name.toList)) <+:
            f.name.toList ++ (" = value;".toList ++ f.changeCode.toList) := by
          simpa [List.append_assoc] using hprefix
        have hblank := (hreturn.eq_of_isPrefix hname (.cons (by decide) _) (List.cons_ne_nil _ _) hend hrest).2
        simp at hblank

/-- The methods for flags name the member through the object. -/
theorem namesThroughThis_flagMethod (e : Enumeration) (y : Enumerator) (a : FlagAccessor) :
    (flagMethod c i f f.onChange e y a).NamesThroughThis f.name := by
  have hopening : ∃ opening ∈ ["", "return ", "return ("], (opening ++ "this->" ++ f.name).toList <+:
      (a.op.statement f.name (FlagAccessor.bitLiteral f.type y.value.toNat)).toList := by
    generalize FlagAccessor.bitLiteral f.type y.value.toNat = bit
    have hfront : ∀ s t u : String, (s ++ f.name).toList <+: (s ++ f.name ++ t ++ bit ++ u).toList := by
      intro s t u
      simp only [String.toList_append, List.append_assoc]
      exact List.prefix_append_right_inj _ |>.mpr (List.prefix_append _ _)
    cases a.op with
    | test | testNot => exact ⟨"return (", by simp, hfront "return (this->" " & " _⟩
    | raise => exact ⟨"", by simp, hfront "this->" " |= " ";"⟩
    | lower => exact ⟨"", by simp, hfront "this->" " &= ~" ";"⟩
    | toggle => exact ⟨"", by simp, hfront "this->" " ^= " ";"⟩
  obtain ⟨opening, hmem, hprefix⟩ := hopening
  refine ⟨opening, hmem, ?_⟩
  refine hprefix.trans ?_
  rw [body_flagMethod, String.toList_append]
  exact List.prefix_append _ _

/-! ### Flags -/

theorem has_flags_synthesize {s : Synthesis} {d : MethodDraft} {g : MethodFlag} (hg : g ∈ [.static, .const]) :
    (c.synthesize s d).flags.has g = d.flags.has g := by
  simp only [List.mem_cons, List.not_mem_nil, or_false] at hg
  rcases hg with rfl | rfl <;> simp [synthesize]

theorem flags_getterMethod : (getterMethod x c i f).flags.has .static = f.flags.has .static ∧
    (getterMethod x c i f).flags.has .const = !f.flags.has .static := by
  unfold getterMethod
  rw [has_flags_synthesize (by simp), has_flags_synthesize (by simp)]
  cases hstatic : f.flags.has .static <;> simp [getterDraft, FlagSet.ofList, hstatic]

theorem flags_setterMethod : (setterMethod x c i f f.onChange).flags.has .static = f.flags.has .static ∧
    (setterMethod x c i f f.onChange).flags.has .const = false := by
  unfold setterMethod
  rw [has_flags_synthesize (by simp), has_flags_synthesize (by simp)]
  cases hstatic : f.flags.has .static <;> simp [setterDraft, FlagSet.ofList, hstatic]

theorem flags_flagMethod (e : Enumeration) (y : Enumerator) (a : FlagAccessor) :
    (flagMethod c i f f.onChange e y a).flags.has .static = false := by
  unfold flagMethod
  rw [has_flags_synthesize (by simp)]
  cases hop : a.op <;> simp [FlagAccessor.draft, BitOp.flags, BitOp.isWrite, FlagSet.ofList, hop]

/-! ### Derived classes -/

/-- In a class that is derived without a fault, the getter and the setter of a field are static just if the field is,
and name the member through the object just if it is not.  The methods for flags are never static and always name the
member through the object.  None of these methods is both static and constant. -/
theorem derive_static {r : Reader} {path : SourcePath} {text : String} {h : Header} (hread : r.read path text = .ok h)
    (hc : c ∈ h.classes) (hfault : (c.derive x).fault = none) (hf : c.fields[i]? = some f) {m : Method}
    (hm : m ∈ (c.derive x).result.methods) (hmade : m.isMadeFromField i = true) :
    ¬(m.flags.has .static = true ∧ m.flags.has .const = true) ∧
      if m.isForFlagOf i then m.flags.has .static = false ∧ m.NamesThroughThis f.name
      else m.flags.has .static = f.flags.has .static ∧ (m.NamesThroughThis f.name ↔ f.flags.has .static = false) := by
  obtain ⟨ms, hms, hfilter, -⟩ := exists_fieldMethods (Reader.isDeclared_of_mem_read hread hc) hfault hf
  obtain ⟨d, hdeclarator⟩ := Reader.exists_isDeclarator hread hc f (List.mem_of_getElem? hf)
  have hmem : m ∈ ms := hfilter ▸ List.mem_filter.mpr ⟨hm, hmade⟩
  rcases cases_of_mem_fieldMethods x c hms hmem with ⟨-, rfl⟩ | ⟨-, rfl⟩ | ⟨u, -, y, -, a, -, rfl⟩
  · obtain ⟨hstatic, hconst⟩ := flags_getterMethod (x := x) (c := c) (i := i) (f := f)
    refine ⟨by rw [hstatic, hconst]; cases f.flags.has .static <;> simp, ?_⟩
    rw [show (getterMethod x c i f).isForFlagOf i = false from isForFlagOf_synthesize c "Getter" _]
    exact ⟨hstatic, namesThroughThis_getterMethod hdeclarator.isWord⟩
  · obtain ⟨hstatic, hconst⟩ := flags_setterMethod (x := x) (c := c) (i := i) (f := f)
    refine ⟨by simp [hconst], ?_⟩
    rw [show (setterMethod x c i f f.onChange).isForFlagOf i = false from isForFlagOf_synthesize c "Setter" _]
    exact ⟨hstatic, namesThroughThis_setterMethod hdeclarator.isWord⟩
  · have hfor : (flagMethod c i f f.onChange u.enumeration y a).isForFlagOf i = true :=
      (isForFlagOf_synthesize c _ _).trans (decide_eq_true (a.roleFor_not_mem u.enumeration y))
    have hstatic := flags_flagMethod (c := c) (i := i) (f := f) u.enumeration y a
    refine ⟨by simp [hstatic], ?_⟩
    rw [hfor]
    exact ⟨hstatic, namesThroughThis_flagMethod u.enumeration y a⟩

/-- A static field that holds flags has methods for them. -/
theorem exists_staticFlags :
    ∃ (h : Header) (c : Class) (f : Field) (m : Method),
      (Reader.ofSettings {}).read ⟨.relative, ["Unit.h"]⟩
          ("REnum()\nenum class Color \x7b\nRed,\n\x7d;\nRClass()\nstruct Unit \x7b\nRBody();\n" ++
            "RField(Flags = Color)\nstatic int sColors;\n\x7d;") = .ok h ∧
        c ∈ h.classes ∧ (c.derive ((⟨[h]⟩ : Program).planContext {})).fault = none ∧
        c.fields[0]? = some f ∧ f.flags.has .static = true ∧
        m ∈ (c.derive ((⟨[h]⟩ : Program).planContext {})).result.methods ∧ m.isForFlagOf 0 = true ∧
        m.flags.has .static = false := by
  have hrun : ((Reader.ofSettings {}).read ⟨.relative, ["Unit.h"]⟩
      ("REnum()\nenum class Color \x7b\nRed,\n\x7d;\nRClass()\nstruct Unit \x7b\nRBody();\n" ++
        "RField(Flags = Color)\nstatic int sColors;\n\x7d;")
      |>.toOption.any fun h => h.classes.any fun c =>
        let o := c.derive ((⟨[h]⟩ : Program).planContext {})
        o.fault.isNone && (c.fields.map (·.flags.has .static) == [true] &&
          o.result.methods.any fun m => m.isForFlagOf 0 && !m.flags.has .static)) = true := by
    rw [Reader.read_ofList_append]
    decide +kernel
  obtain ⟨h, hread, hrun⟩ := Checked.exists_ok_of_any hrun
  obtain ⟨c, hc, hderived⟩ := List.any_eq_true.mp hrun
  obtain ⟨hfault, hderived⟩ := Bool.and_eq_true_iff.mp hderived
  obtain ⟨hfields, hmethods⟩ := Bool.and_eq_true_iff.mp hderived
  obtain ⟨f, hf, hstatic⟩ := Option.map_eq_some_iff.mp
    ((List.getElem?_map (l := c.fields)).symm.trans (congrArg (·[0]?) (beq_iff_eq.mp hfields)))
  obtain ⟨m, hm, hfor⟩ := List.any_eq_true.mp hmethods
  obtain ⟨hfor, hflag⟩ := Bool.and_eq_true_iff.mp hfor
  exact ⟨h, c, f, m, hread, hc, Option.isNone_iff_eq_none.mp hfault, hf, hstatic, hm, hfor, by simpa using hflag⟩

/-- A method for a flag in a static field. -/
theorem derive_static_flag :
    ∃ (h : Header) (c : Class) (f : Field) (m : Method),
      (Reader.ofSettings {}).read ⟨.relative, ["Unit.h"]⟩
          ("REnum()\nenum class Color \x7b\nRed,\n\x7d;\nRClass()\nstruct Unit \x7b\nRBody();\n" ++
            "RField(Flags = Color)\nstatic int sColors;\n\x7d;") = .ok h ∧
        c ∈ h.classes ∧ (c.derive ((⟨[h]⟩ : Program).planContext {})).fault = none ∧
        c.fields[0]? = some f ∧ m ∈ (c.derive ((⟨[h]⟩ : Program).planContext {})).result.methods ∧
        m.isMadeFromField 0 = true ∧ f.flags.has .static = true ∧ m.flags.has .static = false ∧
        m.NamesThroughThis f.name := by
  obtain ⟨h, c, f, m, hread, hc, hfault, hf, hstatic, hm, hfor, -⟩ := exists_staticFlags
  have hmade := m.isMadeFromField_of_isForFlagOf hfor
  obtain ⟨-, hmethod⟩ := derive_static hread hc hfault hf hm hmade
  rw [if_pos hfor] at hmethod
  exact ⟨h, c, f, m, hread, hc, hfault, hf, hm, hmade, hstatic, hmethod⟩

/-- Not every method made from a static field is static. -/
theorem not_static_of_static_field :
    ¬∀ (r : Reader) (path : SourcePath) (text : String) (h : Header) (c : Class), r.read path text = .ok h →
      c ∈ h.classes → (c.derive ((⟨[h]⟩ : Program).planContext r.settings)).fault = none →
      ∀ (i : Nat) (f : Field) (m : Method), c.fields[i]? = some f →
        m ∈ (c.derive ((⟨[h]⟩ : Program).planContext r.settings)).result.methods → m.isMadeFromField i = true →
        (m.flags.has .static = true ↔ f.flags.has .static = true) ∧
          ¬(m.flags.has .static = true ∧ m.flags.has .const = true) ∧
          (m.NamesThroughThis f.name ↔ f.flags.has .static = false) := by
  intro hall
  obtain ⟨h, c, f, m, hread, hc, hfault, hf, hstatic, hm, hfor, hflag⟩ := exists_staticFlags
  obtain ⟨hmethod, -⟩ := hall _ _ _ h c hread hc hfault 0 f m hf hm (m.isMadeFromField_of_isForFlagOf hfor)
  exact Bool.false_ne_true (hflag.symm.trans (hmethod.mpr hstatic))

end Class
end HeaderReflection
