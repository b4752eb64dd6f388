import HeaderReflection.Proofs.Program.Lookup
import HeaderReflection.Proofs.Source.Characters
import HeaderReflection.Proofs.Source.FieldMarkers
import HeaderReflection.Proofs.Source.FieldParts
import HeaderReflection.Proofs.Source.TrailingReturnTypes

/-! # Names and types in a header

What is taken for a name and for a type is decided by characters, and no grammar of types is behind it.

* Every name in a header that is accepted is a run of identifier characters, and only a digit at its beginning
  can keep it from being an identifier (`Text.IsName`).
* A field's declaration is its type, its name and what is assigned, so whatever stands between the leading
  words and the name is the type, and a declaration without one of these parts is rejected
  (`Reader.names_and_types_of_read`).
* What a type holds outside of brackets is not looked at, but for the characters that end a declarator.  So a
  bit-field and several declarators in one statement are accepted, with all that stands in front of the last
  name as the type (`Reader.read_bit_field`). -/

namespace HeaderReflection

open Checked Text

/-! ### Names -/

/-- A run of identifier characters, which is an identifier unless it begins with a digit. -/
structure Text.IsName (w : List Char) : Prop where
  isWord : Lexer.IsWord w
  digit : isIdentifier w = false → ∃ d v, w = d :: v ∧ isDigit d = true

theorem Lexer.IsWord.isName {w : List Char} (hw : Lexer.IsWord w) : Text.IsName w := by
  refine ⟨hw, fun hno => ?_⟩
  obtain ⟨c, v, rfl⟩ := List.exists_cons_of_ne_nil hw.1
  obtain ⟨hc, hv⟩ := List.forall_mem_cons.mp hw.2
  refine ⟨c, v, rfl, ?_⟩
  have hstart : isIdentifierStart c = false := by
    rw [isIdentifier, List.all_eq_true.mpr hv, Bool.and_true] at hno
    exact hno
  unfold isIdentifierStart at hstart
  unfold isIdentifierChar isAsciiAlphanumeric at hc
  unfold isDigit
  grind

theorem MethodText.name_yields : MethodText.read.Yields fun t => Lexer.IsWord t.name.toList := by
  refine .bind (.any _) fun m _ => .bind (.any _) fun _ _ => .ite (fun _ => .throw_bind _) fun _ => ?_
  refine .bind (.any _) fun returnType _ => .ite (fun _ => .throw_bind _) fun _ => ?_
  refine .bind (Lexer.takes_identifier.yields fun _ _ h => h.1) fun name hname => ?_
  refine .ite (fun _ => .throw_bind _) fun _ => ?_
  have hname : Lexer.IsWord (String.ofList name).toList := by rwa [String.toList_ofList]
  refine .bind (.any _) fun _ _ => .bind (.any _) fun _ _ => .ite (fun _ => ?_) fun _ => .throw_bind _
  refine .bind (.any _) fun _ _ => .bind (.any _) fun _ _ => .bind (.any _) fun _ _ => ?_
  exact .bind (.any _) fun _ _ => .pure hname

/-- All names in the header are names. -/
structure Header.IsNamed (h : Header) : Prop where
  classes : ∀ c ∈ h.classes, IsName c.name.toList
  fields : ∀ c ∈ h.classes, ∀ f ∈ c.fields, IsName f.name.toList
  methods : ∀ c ∈ h.classes, ∀ m ∈ c.methods, IsName m.name.toList
  enums : ∀ e ∈ h.enums, IsName e.name.toList
  enumerators : ∀ e ∈ h.enums, ∀ x ∈ e.enumerators, IsName x.name.toList

/-! ### Headers -/

namespace Reader

variable {r : Reader} {path : SourcePath} {text : String} {h : Header}

/-- In a header that is accepted all names are runs of identifier characters, and each field has the type, the name and
the initializer that its text declares.  Every field marker declares these parts, since the header would not be accepted
otherwise. -/
theorem names_and_types_of_read (hr : r.read path text = .ok h) :
    h.IsNamed ∧
      (∀ c ∈ h.classes, ∀ f ∈ c.fields, ∃ own, r.declarationAt? (Text.lines text) f.line = some own ∧
        FieldText.Declares own f.type.toList f.name.toList f.initializer.toList) ∧
      ∀ n, r.ReadsMarker path (Text.lines text) n .field → ∃ own type name e,
        r.declarationAt? (Text.lines text) n = some own ∧ FieldText.Declares own type name e := by
  have hfields : ∀ c ∈ h.classes, ∀ f ∈ c.fields, ∃ own, r.declarationAt? (Text.lines text) f.line = some own ∧
      FieldText.Declares own f.type.toList f.name.toList f.initializer.toList := by
    intro c hc f hf
    obtain ⟨p, d, cs, list, own, hreads⟩ := readsField_of_mem_fields hr hc hf
    exact ⟨own, hreads.text, fieldOf_declares _ _ _ _ _ hreads.field⟩
  refine ⟨⟨fun c hc => (isWord_of_mem_classes hr hc).isName, ?_, ?_,
    fun e he => (readFrom_of_mem_enums hr he).name.isName,
    fun e he x hx => ((readFrom_of_mem_enums hr he).names x hx).isName⟩, hfields, ?_⟩
  · intro c hc f hf
    obtain ⟨_, -, _, _, _, _, _, _, -, -, hdeclarator, -⟩ := hfields c hc f hf
    exact hdeclarator.isWord.isName
  · intro c hc m hm
    obtain ⟨_, _, _, _, -, -, hmade⟩ := methodOf_of_mem_methods hr hc hm
    obtain ⟨t, ht, hname, -⟩ := methodOf_text _ _ _ _ _ hmade
    rw [hname]
    exact (MethodText.name_yields.of_eval ht).isName
  · intro n hn
    obtain ⟨p, c, cs, list, own, f, hreads⟩ := exists_readsField hr hn
    exact ⟨own, _, _, _, hreads.text, fieldOf_declares _ _ _ _ _ hreads.field⟩

/-- A type with a comma inside brackets. -/
theorem names_and_types_of_read_map :
    ∃ h, (Reader.ofSettings {}).read ⟨.relative, ["Unit.h"]⟩
        "RClass()\nstruct Unit \x7b\nRBody();\nRField() static std::map<int, T> mMap = f(1, 2);\n\x7d;" = .ok h ∧
      h.IsNamed ∧ ∃ c ∈ h.classes, ∃ f ∈ c.fields, FieldText.Declares
        "static std::map<int, T> mMap = f(1, 2);".toList f.type.toList f.name.toList f.initializer.toList := by
  have hrun : ((Reader.ofSettings {}).read ⟨.relative, ["Unit.h"]⟩
      "RClass()\nstruct Unit \x7b\nRBody();\nRField() static std::map<int, T> mMap = f(1, 2);\n\x7d;"
      |>.toOption.any fun h => h.classes.any fun c => c.fields.any fun f => f.line == 4) = true := by
    rw [read_ofList]
    decide +kernel
  have hat : (Reader.ofSettings {}).declarationAt? (Text.lines
      "RClass()\nstruct Unit \x7b\nRBody();\nRField() static std::map<int, T> mMap = f(1, 2);\n\x7d;") 4 =
        some "static std::map<int, T> mMap = f(1, 2);".toList := by
    rw [Text.lines_ofList]
    decide +kernel
  obtain ⟨h, hread, hrun⟩ := Checked.exists_ok_of_any hrun
  obtain ⟨c, hc, hrun⟩ := List.any_eq_true.mp hrun
  obtain ⟨f, hf, hline⟩ := List.any_eq_true.mp hrun
  obtain ⟨hnamed, hfields, -⟩ := names_and_types_of_read hread
  obtain ⟨own, hown, hdeclares⟩ := hfields c hc f hf
  rw [eq_of_beq hline, hat] at hown
  obtain rfl := Option.some.inj hown
  exact ⟨h, hread, hnamed, c, hc, f, hf, hdeclares⟩

/-- Names that begin with digits, a bit-field and two declarators in one statement are accepted: all that stands in
front of the last name is the type. -/
theorem read_bit_field :
    ∃ h, (Reader.ofSettings {}).read ⟨.relative, ["Unit.h"]⟩
        ("REnum()\nenum class 4 \x7b\n5,\n\x7d;\n" ++
          "RClass()\nstruct 3 \x7b\nRBody();\nRField()\nint a : 6;\nRField()\nint b, c;\nRMethod()\nint 7();\n\x7d;") =
            .ok h ∧
      h.classes.map (fun c => (c.name, c.fields.map fun f => (f.type, f.name), c.methods.map (·.name))) =
        [("3", [("int a :", "6"), ("int b,", "c")], ["7"])] ∧
      h.enums.map (fun e => (e.name, e.enumerators.map (·.name))) = [("4", ["5"])] ∧
      ∀ name ∈ ["3", "4", "5", "6", "7"], isIdentifier name.toList = false := by
  have hrun : ((Reader.ofSettings {}).read ⟨.relative, ["Unit.h"]⟩
      ("REnum()\nenum class 4 \x7b\n5,\n\x7d;\n" ++
        "RClass()\nstruct 3 \x7b\nRBody();\nRField()\nint a : 6;\nRField()\nint b, c;\nRMethod()\nint 7();\n\x7d;")
      |>.toOption.any fun h =>
        h.classes.map (fun c => (c.name, c.fields.map fun f => (f.type, f.name), c.methods.map (·.name))) ==
          [("3", [("int a :", "6"), ("int b,", "c")], ["7"])] &&
        h.enums.map (fun e => (e.name, e.enumerators.map (·.name))) == [("4", ["5"])]) = true := by
    rw [read_ofList_append]
    decide +kernel
  obtain ⟨h, hread, hrun⟩ := Checked.exists_ok_of_any hrun
  obtain ⟨hclasses, henums⟩ := Bool.and_eq_true_iff.mp hrun
  exact ⟨h, hread, eq_of_beq hclasses, eq_of_beq henums, by decide⟩

end Reader

end HeaderReflection
