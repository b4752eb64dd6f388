import HeaderReflection.Database

/-! # Reading the database

The database is a value of lists and objects, and what is claimed of it is claimed of what a reader finds
there.  This module looks at the values from that side.

* `member?`, `elements` and `entries` give a member of an object, the elements of a list, and the members of
  an object that is a member.
* A member is left out if its list or object is empty, and then it is read as an empty one.  So the lists of a
  class are read back whole, and nobody has to ask whether they were written (`elements_methods`,
  `entries_fields`).
* Some members all declarations have (`commonKeys`), others only those of one kind (`special`).  The two share
  no key that is asked for here, so a member of one part is found whatever the other part is
  (`member?_ofEntity`).

Every lemma says what a member of a written declaration is in terms of the declaration.  With them, a
statement on the database becomes one on the program that it was written from. -/

namespace HeaderReflection.Database

/-! ### Members, elements and entries -/

/-- The member of an object under a key. -/
def member? (key : String) : Value → Option Value
  | .object ms => Keyed.get? ms key
  | _ => none

/-- The elements of the list under a key. -/
def elements (key : String) (v : Value) : List Value :=
  match member? key v with
  | some (.array vs) => vs
  | _ => []

/-- The members of the object under a key. -/
def entries (key : String) (v : Value) : Members :=
  match member? key v with
  | some (.object ms) => ms
  | _ => []

/-- The full name of a declaration. -/
def fullName? (v : Value) : Option String := (member? "FullName" v).bind Value.string?

theorem elements_of_member? {key : String} {v : Value} {vs : List Value}
    (h : member? key v = if vs.isEmpty then none else some (.array vs)) : elements key v = vs := by
  unfold elements
  rw [h]
  cases vs with
  | nil => rfl
  | cons => rfl

theorem entries_of_member? {key : String} {v : Value} {ms : Members}
    (h : member? key v = if ms.isEmpty then none else some (.object ms)) : entries key v = ms := by
  unfold entries
  rw [h]
  cases ms with
  | nil => rfl
  | cons => rfl

/-! ### Members that may be left out -/

theorem get?_memberIf (b : Bool) (key k : String) (v : Value) :
    Keyed.get? (memberIf b key v) k = if k = key ∧ b = true then some v else none := by
  unfold memberIf
  cases b with
  | true => simp [Keyed.get?_cons]
  | false => simp

theorem get?_optionalText (key k : String) (s : Option String) :
    Keyed.get? (optionalText key s) k = if k = key then s.map Value.str else none := by
  cases s with
  | none => simp [optionalText]
  | some t => simp [optionalText, Keyed.get?_cons]

/-- The keys of the members that all declarations have. -/
def commonKeys : List String :=
  ["Name", "Kind", "DeclarationLine", "UID", "Comments", "Attributes", "FullName", "DisplayName", "Access",
    "DocumentMembers", "DocNotes", "EntityFlags", "Deprecation", "AssociatedArtificialMethods"]

theorem get?_common_of_not_mem (e : Entity) {k : String} (h : k ∉ commonKeys) : Keyed.get? (common e) k = none := by
  simp only [commonKeys, List.mem_cons, List.not_mem_nil, or_false, not_or] at h
  simp [common, text, items, bag, flags, synthesized, Keyed.get?_append, Keyed.get?_cons, get?_memberIf, h]

theorem get?_common_name (e : Entity) : Keyed.get? (common e) "Name" = some (.str e.declaration.name) := by
  simp [common, Keyed.get?_cons]

theorem get?_common_fullName (e : Entity) : Keyed.get? (common e) "FullName" = some (.str e.fullName) := by
  simp [common, text, items, bag, flags, synthesized, Keyed.get?_append, Keyed.get?_cons, get?_memberIf]

theorem get?_common_associated (e : Entity) :
    Keyed.get? (common e) "AssociatedArtificialMethods" =
      if e.declaration.synthesized.isEmpty then none
      else some (.object (e.declaration.synthesized.map fun p => (p.1, .str (p.2.fullName (ownerName e) ".")))) := by
  simp [common, text, items, bag, flags, synthesized, Keyed.get?_append, Keyed.get?_cons, get?_memberIf]

/-! ### Declarations -/

/-- The members of a declaration that only its kind has. -/
def special : Entity → Members
  | .classType c =>
    typeMembers c.toTypeDeclaration ++ text "BaseClass" c.baseClass ++ flags "Flags" c.flags ++
      memberIf (!c.fields.isEmpty) "Fields" (byName (c.fields.map fun f => (f.name, ofField c f))) ++
      items "Methods" (c.methods.map (ofMethod c)) ++
      items "Properties" (c.properties.map fun p => ofProperty c p.2) ++
      items "DeclaredFlags" (c.declaredFlags.map ofDeclaredFlag) ++
      [("BodyLine", .int c.bodyLine)] ++
      items "AdditionalBodyLines" (c.bodyAdditions.map .str) ++
      bag "DefaultFieldAttributes" c.defaultFieldAttributes ++
      bag "DefaultMethodAttributes" c.defaultMethodAttributes
  | .field _ f => fieldMembers f
  | .method c m => methodMembers c m
  | .property c p => propertyMembers c p
  | .enumType e =>
    typeMembers e.toTypeDeclaration ++
      [("Enumerators", byName (e.enumerators.map fun x => (x.name, ofEnumerator e x)))] ++
      text "BaseType" e.baseType ++
      bag "DefaultEnumeratorAttributes" e.defaultEnumeratorAttributes ++
      [("Trivial", .bool e.isTrivial), ("Consecutive", .bool e.isConsecutive)] ++
      flags "Flags" e.flags
  | .enumerator _ x => enumeratorMembers x

theorem ofEntity_eq (d : Entity) : ofEntity d = .object (common d ++ special d) := by
  cases d with
  | classType c => simp only [ofEntity, ofClass, special, List.append_assoc]
  | enumType e => simp only [ofEntity, ofEnum, special, List.append_assoc]
  | field | method | property | enumerator => rfl

theorem member?_ofEntity (d : Entity) (key : String) :
    member? key (ofEntity d) = (Keyed.get? (common d) key).or (Keyed.get? (special d) key) := by
  rw [ofEntity_eq]
  exact Keyed.get?_append _ _ key

/-- A member that not all declarations have. -/
theorem member?_ofEntity_of_not_mem (d : Entity) (key : String) (h : key ∉ commonKeys) :
    member? key (ofEntity d) = Keyed.get? (special d) key := by
  rw [member?_ofEntity, get?_common_of_not_mem d h]
  rfl

theorem member?_name (d : Entity) : member? "Name" (ofEntity d) = some (.str d.declaration.name) := by
  rw [member?_ofEntity, get?_common_name]
  rfl

theorem fullName?_ofEntity (d : Entity) : fullName? (ofEntity d) = some d.fullName := by
  unfold fullName?
  rw [member?_ofEntity, get?_common_fullName]
  rfl

theorem fullName?_ofMethod (c : Class) (m : Method) : fullName? (ofMethod c m) = some (c.methodName m) :=
  fullName?_ofEntity (.method c m)

theorem fullName?_ofField (c : Class) (f : Field) : fullName? (ofField c f) = some (c.memberName f.name) :=
  fullName?_ofEntity (.field c f)

theorem get?_special_associated (d : Entity) :
    Keyed.get? (special d) "AssociatedArtificialMethods" = none := by
  cases d with
  | classType c =>
      simp [special, typeMembers, text, items, bag, flags, Keyed.get?_append, Keyed.get?_cons, get?_memberIf]
  | field c f =>
      simp [special, fieldMembers, text, textUnless, items, flags, Keyed.get?_append, Keyed.get?_cons,
        get?_memberIf]
  | method c m =>
      simp [special, methodMembers, text, items, flags, Keyed.get?_append, Keyed.get?_cons, get?_memberIf,
        get?_optionalText]
  | property c p =>
      simp [special, propertyMembers, items, flags, Keyed.get?_append, Keyed.get?_cons, get?_memberIf,
        get?_optionalText]
  | enumType e =>
      simp [special, typeMembers, text, items, bag, flags, Keyed.get?_append, Keyed.get?_cons, get?_memberIf]
  | enumerator e y => simp [special, enumeratorMembers, text, Keyed.get?_cons, get?_memberIf]

theorem entries_associated (d : Entity) :
    entries "AssociatedArtificialMethods" (ofEntity d) =
      d.declaration.synthesized.map fun p => (p.1, .str (p.2.fullName (ownerName d) ".")) := by
  refine entries_of_member? ?_
  rw [member?_ofEntity, get?_common_associated, get?_special_associated, Option.or_none]
  simp

/-! ### Members of classes and enums -/

/-- The lists of a class are those of its members. -/
theorem member?_ofClass (c : Class) :
    (member? "Methods" (ofClass c) =
        if (c.methods.map (ofMethod c)).isEmpty then none else some (.array (c.methods.map (ofMethod c)))) ∧
      (member? "Properties" (ofClass c) =
        if (c.properties.map fun p => ofProperty c p.2).isEmpty then none
        else some (.array (c.properties.map fun p => ofProperty c p.2))) ∧
      (member? "DeclaredFlags" (ofClass c) =
        if (c.declaredFlags.map ofDeclaredFlag).isEmpty then none
        else some (.array (c.declaredFlags.map ofDeclaredFlag))) ∧
      member? "Fields" (ofClass c) =
        if c.fields.isEmpty then none else some (byName (c.fields.map fun f => (f.name, ofField c f))) := by
  have hmember := fun key h => member?_ofEntity_of_not_mem (.classType c) key h
  change ∀ key, key ∉ commonKeys → member? key (ofClass c) = _ at hmember
  refine ⟨?_, ?_, ?_, ?_⟩
  all_goals
    rw [hmember _ (by decide)]
    simp [special, typeMembers, text, items, bag, flags, Keyed.get?_append, Keyed.get?_cons, get?_memberIf]

section Class

variable (c : Class)

theorem elements_methods : elements "Methods" (ofClass c) = c.methods.map (ofMethod c) :=
  elements_of_member? (member?_ofClass c).1

theorem elements_properties : elements "Properties" (ofClass c) = c.properties.map fun p => ofProperty c p.2 :=
  elements_of_member? (member?_ofClass c).2.1

theorem elements_declaredFlags : elements "DeclaredFlags" (ofClass c) = c.declaredFlags.map ofDeclaredFlag :=
  elements_of_member? (member?_ofClass c).2.2.1

theorem entries_fields :
    entries "Fields" (ofClass c) = Keyed.ofList (c.fields.map fun f => (f.name, ofField c f)) := by
  unfold entries
  rw [(member?_ofClass c).2.2.2]
  cases c.fields with
  | nil => rfl
  | cons f fs => rfl

/-! ### What methods and properties refer to -/

theorem member?_sourceDeclaration (m : Method) :
    member? "SourceDeclaration" (ofMethod c m) =
      (m.synthesis.bind fun s => originName? c s.origin).map Value.str := by
  have hmember := member?_ofEntity_of_not_mem (.method c m) "SourceDeclaration" (by decide)
  change member? "SourceDeclaration" (ofMethod c m) = _ at hmember
  rw [hmember]
  simp [special, methodMembers, text, items, flags, Keyed.get?_append, Keyed.get?_cons, get?_memberIf,
    get?_optionalText]

theorem member?_accessor (p : Property) :
    member? "Getter" (ofProperty c p) = some (accessorName c p.getter) ∧
      member? "Setter" (ofProperty c p) = some (accessorName c p.setter) := by
  have hmember := fun key h => member?_ofEntity_of_not_mem (.property c p) key h
  change ∀ key, key ∉ commonKeys → member? key (ofProperty c p) = _ at hmember
  rw [hmember _ (by decide), hmember _ (by decide)]
  simp [special, propertyMembers, Keyed.get?_cons]

theorem member?_sourceField (p : Property) :
    member? "SourceField" (ofProperty c p) =
      (p.source.bind fun i => originName? c (.field i)).map Value.str := by
  have hmember := member?_ofEntity_of_not_mem (.property c p) "SourceField" (by decide)
  change member? "SourceField" (ofProperty c p) = _ at hmember
  rw [hmember]
  simp [special, propertyMembers, items, flags, Keyed.get?_append, Keyed.get?_cons, get?_memberIf,
    get?_optionalText]

end Class

theorem entries_enumerators (e : Enumeration) :
    entries "Enumerators" (ofEnum e) = Keyed.ofList (e.enumerators.map fun y => (y.name, ofEnumerator e y)) := by
  have hmember := member?_ofEntity_of_not_mem (.enumType e) "Enumerators" (by decide)
  change member? "Enumerators" (ofEnum e) = _ at hmember
  unfold entries
  rw [hmember]
  simp [special, typeMembers, text, Keyed.get?_append, Keyed.get?_cons, get?_memberIf, byName]

/-! ### Headers and programs -/

theorem entries_classes (h : Header) :
    entries "Classes" (ofHeader h) = Keyed.ofList (h.classes.map fun c => (c.fullName, ofClass c)) := rfl

theorem entries_enums (h : Header) :
    entries "Enums" (ofHeader h) = Keyed.ofList (h.enums.map fun e => (e.fullName, ofEnum e)) := rfl

theorem elements_files (p : Program) :
    elements "Files" (ofProgram p) = (p.headers.filter (!·.isEmpty)).map ofHeader := rfl

end HeaderReflection.Database
