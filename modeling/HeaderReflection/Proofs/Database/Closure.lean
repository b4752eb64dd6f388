import HeaderReflection.Proofs.Database.Members
import HeaderReflection.Proofs.Program.Identity
import HeaderReflection.Proofs.Source.Characters

/-! # The database refers to itself

References in the database are written as full names.  A database is closed if whatever is referred to is
there (`Database.Closed`):

* the methods made from a declaration, and the accessors of a property, are methods of the class, each the
  only one with its name;
* what a method was made from, and the field that a property stands for, stand in the class;
* a declared flag names a field of the class, an enumerator of an enum in the database, and methods of the
  class;
* nothing is made from an enum or an enumerator.

In a class that was derived without a fault every method, field and enumerator that is referred to is there
(`Class.IsClosed`), so what is written as the name of one can be looked up (`Database.closed_ofProgram`).
There is one lemma for each kind of reference, which says what is written for it in terms of the class.  That
a name is that of just one method takes that methods have different identifiers, since their full names end
with these. -/

namespace HeaderReflection.Database

/-! ### Closed databases -/

/-- The text is the full name of just one of the values. -/
def NamesOne (vs : List Value) (s : String) : Prop := (vs.map fullName?).count (some s) = 1

/-- The text is the full name of an enumerator in some file. -/
def NamesEnumerator (db : Value) (s : String) : Prop :=
  ∃ file ∈ elements "Files" db, ∃ e ∈ entries "Enums" file, ∃ y ∈ entries "Enumerators" e.2,
    fullName? y.2 = some s

/-- The fields of a class. -/
def fields (c : Value) : List Value := (entries "Fields" c).map (·.2)

/-- What is written as a reference in a class is the name of something in the class, or of an enumerator. -/
structure ClassIsClosed (db c : Value) : Prop where
  associated : ∀ d ∈ c :: (fields c ++ elements "Methods" c ++ elements "Properties" c),
    ∀ p ∈ entries "AssociatedArtificialMethods" d, ∃ s, p.2 = .str s ∧ NamesOne (elements "Methods" c) s
  accessor : ∀ p ∈ elements "Properties" c, ∀ key ∈ ["Getter", "Setter"], ∀ v, member? key p = some v →
    v ≠ .null → ∃ s, v = .str s ∧ NamesOne (elements "Methods" c) s
  sourceDeclaration : ∀ m ∈ elements "Methods" c, ∀ v, member? "SourceDeclaration" m = some v →
    ∃ d ∈ c :: (fields c ++ elements "Methods" c), ∃ s, v = .str s ∧ fullName? d = some s
  sourceField : ∀ p ∈ elements "Properties" c, ∀ v, member? "SourceField" p = some v →
    ∃ f ∈ fields c, ∃ s, v = .str s ∧ fullName? f = some s
  flagField : ∀ f ∈ elements "DeclaredFlags" c, ∃ name ∈ (entries "Fields" c).map (·.1),
    member? "Field" f = some (.str name)
  flagEnumerator : ∀ f ∈ elements "DeclaredFlags" c, ∃ s, member? "Enumerator" f = some (.str s) ∧
    NamesEnumerator db s
  flagMethods : ∀ f ∈ elements "DeclaredFlags" c, ∃ names, member? "Methods" f = some (.array names) ∧
    ∀ v ∈ names, ∃ m ∈ elements "Methods" c, member? "Name" m = some v

/-- No methods are made from an enum. -/
structure EnumIsClosed (e : Value) : Prop where
  associated : entries "AssociatedArtificialMethods" e = []
  enumerators : ∀ y ∈ entries "Enumerators" e, entries "AssociatedArtificialMethods" y.2 = []

/-- What is written as a reference is the name of something in the database. -/
structure Closed (db : Value) : Prop where
  classes : ∀ file ∈ elements "Files" db, ∀ c ∈ entries "Classes" file, ClassIsClosed db c.2
  enums : ∀ file ∈ elements "Files" db, ∀ e ∈ entries "Enums" file, EnumIsClosed e.2

/-! ### Classes -/

section Class

variable {c : Class} {isEnumerator : String → Prop} {db : Value}

/-- The full name of a method is that of just one method of its class. -/
theorem namesOne_of_mem (huids : (c.methods.map (·.uid)).Nodup) {m : Method} (hm : m ∈ c.methods) :
    NamesOne (elements "Methods" (ofClass c)) (c.methodName m) := by
  have hnames : (elements "Methods" (ofClass c)).map fullName? = c.methods.map fun m => some (c.methodName m) := by
    rw [elements_methods, List.map_map]
    refine List.map_congr_left fun k _ => ?_
    rw [Function.comp_apply, fullName?_ofMethod]
  have hnodup : (c.methods.map fun m => some (c.methodName m)).Nodup :=
    nodup_map_of_nodup_map huids fun k _ l _ heq => Class.uid_eq_of_methodName_eq (Option.some.inj heq)
  unfold NamesOne
  rw [hnames]
  exact List.count_eq_one_of_mem hnodup (List.mem_map_of_mem hm)

theorem exists_field_of_mem {f : Field} (hf : f ∈ c.fields) :
    ∃ v, (f.name, v) ∈ entries "Fields" (ofClass c) ∧ fullName? v = some (c.memberName f.name) := by
  rw [entries_fields]
  obtain ⟨v, hv, hlist⟩ := Keyed.exists_mem_ofList (List.mem_map_of_mem (f := fun f => (f.name, ofField c f)) hf)
  refine ⟨v, hv, ?_⟩
  obtain ⟨g, -, hpair⟩ := List.mem_map.mp hlist
  obtain ⟨hname, rfl⟩ := Prod.mk.inj hpair
  rw [fullName?_ofField, hname]

theorem exists_of_mem_fields {v : Value} (hv : v ∈ fields (ofClass c)) : ∃ f ∈ c.fields, v = ofField c f := by
  unfold fields at hv
  rw [entries_fields] at hv
  obtain ⟨p, hp, rfl⟩ := List.mem_map.mp hv
  obtain ⟨f, hf, rfl⟩ := List.mem_map.mp (Keyed.mem_of_mem_ofList hp)
  exact ⟨f, hf, rfl⟩

/-! ### References of a class -/

theorem associated_of_isClosed (hc : c.IsClosed isEnumerator) (huids : (c.methods.map (·.uid)).Nodup) :
    ∀ d ∈ Entity.ofClass c, ∀ p ∈ entries "AssociatedArtificialMethods" (ofEntity d), ∃ s, p.2 = .str s ∧
      NamesOne (elements "Methods" (ofClass c)) s := by
  have hmade : ∀ d ∈ Entity.ofClass c, ownerName d = c.fullName ∧
      ∀ p ∈ d.declaration.synthesized, ∃ m ∈ c.methods, m.link = p.2 := by
    refine Entity.forall_mem_ofClass.mpr ⟨⟨rfl, hc.made .owner⟩, fun f hf => ⟨rfl, ?_⟩, fun m hm => ⟨rfl, ?_⟩,
      fun q hq => ⟨rfl, fun p hp => ?_⟩⟩
    · obtain ⟨i, hi⟩ := List.getElem?_of_mem hf
      have hfrom : c.madeFrom (.field i) = f.synthesized := by simp [Class.madeFrom, Class.origin?, hi]
      exact hfrom ▸ hc.made (.field i)
    · obtain ⟨i, hi⟩ := List.getElem?_of_mem hm
      have hfrom : c.madeFrom (.method i) = m.synthesized := by simp [Class.madeFrom, Class.origin?, hi]
      exact hfrom ▸ hc.made (.method i)
    · have hp : p ∈ q.2.synthesized := hp
      rw [hc.unmade q hq] at hp
      exact absurd hp List.not_mem_nil
  intro d hd p hp
  obtain ⟨howner, hmade⟩ := hmade d hd
  rw [entries_associated] at hp
  obtain ⟨q, hq, rfl⟩ := List.mem_map.mp hp
  obtain ⟨m, hm, hlink⟩ := hmade q hq
  refine ⟨_, rfl, ?_⟩
  rw [howner, ← hlink]
  exact namesOne_of_mem huids hm

theorem accessor_of_isClosed (hc : c.IsClosed isEnumerator) (huids : (c.methods.map (·.uid)).Nodup)
    {q : String × Property} (hq : q ∈ c.properties) (role : AccessorRole)
    (hnull : accessorName c (q.2.accessor role) ≠ .null) :
    ∃ s, accessorName c (q.2.accessor role) = .str s ∧ NamesOne (elements "Methods" (ofClass c)) s := by
  cases hl : q.2.accessor role with
  | none =>
      rw [hl] at hnull
      exact absurd rfl hnull
  | some l =>
      obtain ⟨m, hm, rfl⟩ := hc.accessor q hq role l hl
      exact ⟨_, rfl, namesOne_of_mem huids hm⟩

theorem exists_of_originName? {o : Origin} {s : String} (h : originName? c o = some s) :
    ∃ d ∈ ofClass c :: (fields (ofClass c) ++ elements "Methods" (ofClass c)), fullName? d = some s := by
  cases o with
  | owner => exact ⟨_, List.mem_cons_self, (fullName?_ofEntity (.classType c)).trans h⟩
  | field i =>
      obtain ⟨f, hf, rfl⟩ := Option.map_eq_some_iff.mp h
      obtain ⟨v, hv, hname⟩ := exists_field_of_mem (List.mem_of_getElem? hf)
      refine ⟨v, List.mem_cons_of_mem _ (List.mem_append_left _ ?_), hname⟩
      exact List.mem_map_of_mem (f := Prod.snd) hv
  | method i =>
      obtain ⟨m, hm, rfl⟩ := Option.map_eq_some_iff.mp h
      refine ⟨ofMethod c m, List.mem_cons_of_mem _ (List.mem_append_right _ ?_), fullName?_ofMethod c m⟩
      rw [elements_methods]
      exact List.mem_map_of_mem (List.mem_of_getElem? hm)

/-- The declarations written in a class are the class, its fields, its methods and its properties. -/
theorem exists_entity_of_mem {d : Value} (hd : d ∈ ofClass c ::
    (fields (ofClass c) ++ elements "Methods" (ofClass c) ++ elements "Properties" (ofClass c))) :
    ∃ x ∈ Entity.ofClass c, d = ofEntity x := by
  have hmem : ∀ x ∈ Entity.ofClass c, ∃ y ∈ Entity.ofClass c, ofEntity x = ofEntity y := fun x hx => ⟨x, hx, rfl⟩
  obtain ⟨hown, hfields, hmethods, hproperties⟩ := Entity.forall_mem_ofClass.mp hmem
  rcases List.mem_cons.mp hd with rfl | hd
  · exact hown
  rcases List.mem_append.mp hd with hd | hd
  · rcases List.mem_append.mp hd with hd | hd
    · obtain ⟨f, hf, rfl⟩ := exists_of_mem_fields hd
      exact hfields f hf
    · rw [elements_methods] at hd
      obtain ⟨m, hm, rfl⟩ := List.mem_map.mp hd
      exact hmethods m hm
  · rw [elements_properties] at hd
    obtain ⟨q, hq, rfl⟩ := List.mem_map.mp hd
    exact hproperties q hq

theorem accessorReference_of_isClosed (hc : c.IsClosed isEnumerator) (huids : (c.methods.map (·.uid)).Nodup)
    {p v : Value} (hp : p ∈ elements "Properties" (ofClass c)) {key : String} (hkey : key ∈ ["Getter", "Setter"])
    (hv : member? key p = some v) (hnull : v ≠ .null) :
    ∃ s, v = .str s ∧ NamesOne (elements "Methods" (ofClass c)) s := by
  rw [elements_properties] at hp
  obtain ⟨q, hq, rfl⟩ := List.mem_map.mp hp
  obtain ⟨hgetter, hsetter⟩ := member?_accessor c q.2
  rcases List.mem_cons.mp hkey with rfl | hkey
  · obtain rfl := Option.some.inj (hgetter.symm.trans hv)
    exact accessor_of_isClosed hc huids hq .getter hnull
  · obtain rfl := List.mem_singleton.mp hkey
    obtain rfl := Option.some.inj (hsetter.symm.trans hv)
    exact accessor_of_isClosed hc huids hq .setter hnull

theorem exists_sourceDeclaration {m v : Value} (hm : m ∈ elements "Methods" (ofClass c))
    (hv : member? "SourceDeclaration" m = some v) :
    ∃ d ∈ ofClass c :: (fields (ofClass c) ++ elements "Methods" (ofClass c)), ∃ s,
      v = .str s ∧ fullName? d = some s := by
  rw [elements_methods] at hm
  obtain ⟨k, -, rfl⟩ := List.mem_map.mp hm
  rw [member?_sourceDeclaration] at hv
  obtain ⟨s, hs, rfl⟩ := Option.map_eq_some_iff.mp hv
  obtain ⟨t, -, ht⟩ := Option.bind_eq_some_iff.mp hs
  obtain ⟨d, hd, hname⟩ := exists_of_originName? ht
  exact ⟨d, hd, s, rfl, hname⟩

theorem exists_sourceField {p v : Value} (hp : p ∈ elements "Properties" (ofClass c))
    (hv : member? "SourceField" p = some v) :
    ∃ f ∈ fields (ofClass c), ∃ s, v = .str s ∧ fullName? f = some s := by
  rw [elements_properties] at hp
  obtain ⟨q, -, rfl⟩ := List.mem_map.mp hp
  rw [member?_sourceField] at hv
  obtain ⟨s, hs, rfl⟩ := Option.map_eq_some_iff.mp hv
  obtain ⟨i, -, hi⟩ := Option.bind_eq_some_iff.mp hs
  obtain ⟨f, hf, rfl⟩ := Option.map_eq_some_iff.mp hi
  obtain ⟨w, hw, hname⟩ := exists_field_of_mem (List.mem_of_getElem? hf)
  exact ⟨w, List.mem_map_of_mem (f := Prod.snd) hw, _, rfl, hname⟩

theorem exists_flagMethod (hc : c.IsClosed isEnumerator) {g : DeclaredFlag} (hg : g ∈ c.declaredFlags) {v : Value}
    (hv : v ∈ (g.methods.map (·.name)).map Value.str) :
    ∃ m ∈ elements "Methods" (ofClass c), member? "Name" m = some v := by
  obtain ⟨name, hname, rfl⟩ := List.mem_map.mp hv
  obtain ⟨l, hl, rfl⟩ := List.mem_map.mp hname
  obtain ⟨m, hm, hlink⟩ := hc.flagMethod g hg l hl
  rw [elements_methods]
  refine ⟨ofMethod c m, List.mem_map_of_mem hm, ?_⟩
  rw [← hlink]
  exact member?_name (.method c m)

/-- A closed class is written as one. -/
theorem classIsClosed_ofClass (hc : c.IsClosed isEnumerator) (huids : (c.methods.map (·.uid)).Nodup)
    (henumerators : ∀ s, isEnumerator s → NamesEnumerator db s) : ClassIsClosed db (ofClass c) := by
  have hflag : ∀ f ∈ elements "DeclaredFlags" (ofClass c), ∃ g ∈ c.declaredFlags, f = ofDeclaredFlag g := by
    intro f hf
    rw [elements_declaredFlags] at hf
    obtain ⟨g, hg, rfl⟩ := List.mem_map.mp hf
    exact ⟨g, hg, rfl⟩
  constructor
  case associated =>
    intro d hd
    obtain ⟨x, hx, rfl⟩ := exists_entity_of_mem hd
    exact associated_of_isClosed hc huids x hx
  case accessor => exact fun p hp key hkey v hv hnull => accessorReference_of_isClosed hc huids hp hkey hv hnull
  case sourceDeclaration => exact fun m hm v hv => exists_sourceDeclaration hm hv
  case sourceField => exact fun p hp v hv => exists_sourceField hp hv
  case flagField =>
    intro f hf
    obtain ⟨g, hg, rfl⟩ := hflag f hf
    obtain ⟨k, hk, hname⟩ := hc.flagField g hg
    obtain ⟨v, hv, -⟩ := exists_field_of_mem hk
    exact ⟨k.name, List.mem_map_of_mem (f := Prod.fst) hv, hname ▸ rfl⟩
  case flagEnumerator =>
    intro f hf
    obtain ⟨g, hg, rfl⟩ := hflag f hf
    exact ⟨g.enumerator, rfl, henumerators _ (hc.enumerator g hg)⟩
  case flagMethods =>
    intro f hf
    obtain ⟨g, hg, rfl⟩ := hflag f hf
    exact ⟨(g.methods.map (·.name)).map Value.str, rfl, fun v hv => exists_flagMethod hc hg hv⟩

end Class

/-! ### Enums -/

section Enum

variable {d e : Enumeration} {header : SourcePath}

theorem enumIsClosed_ofEnum (h : d.Follows e) (he : e.ReadFrom header) : EnumIsClosed (ofEnum d) where
  associated := by
    have hentries := entries_associated (.enumType d)
    have hunmade : (Entity.enumType d).declaration.synthesized = [] := h.made.trans he.own.unmade
    rw [hunmade] at hentries
    exact hentries
  enumerators := by
    intro p hp
    rw [entries_enumerators] at hp
    obtain ⟨y, hy, rfl⟩ := List.mem_map.mp (Keyed.mem_of_mem_ofList hp)
    obtain ⟨z, hz, hstated⟩ := List.mem_map.mp (h.enumerators ▸ List.mem_map_of_mem hy)
    have hentries := entries_associated (.enumerator d y)
    have hunmade : (Entity.enumerator d y).declaration.synthesized = [] := by
      show y.stated.synthesized = []
      rw [← hstated]
      exact (he.enumerators z hz).unmade
    rw [hunmade] at hentries
    exact hentries

theorem exists_enumerator_of_mem (h : d.Follows e) {y : Enumerator} (hy : y ∈ e.enumerators) :
    ∃ q ∈ entries "Enumerators" (ofEnum d), fullName? q.2 = some (e.fullName ++ "." ++ y.name) := by
  rw [entries_enumerators]
  obtain ⟨z, hz, hstated⟩ := List.mem_map.mp (h.enumerators ▸ List.mem_map_of_mem hy)
  obtain ⟨v, hv, hlist⟩ :=
    Keyed.exists_mem_ofList (List.mem_map_of_mem (f := fun y => (y.name, ofEnumerator d y)) hz)
  refine ⟨_, hv, ?_⟩
  obtain ⟨w, -, hpair⟩ := List.mem_map.mp hlist
  obtain ⟨hname, rfl⟩ := Prod.mk.inj hpair
  have hstatedName : z.name = y.name := Declaration.name_eq_of_stated (Enumerator.stated_toDeclaration hstated)
  have hfull : fullName? (ofEnumerator d w) = some (d.fullName ++ "." ++ w.name) :=
    fullName?_ofEntity (.enumerator d w)
  rw [hfull, h.fullName, hname, hstatedName]

end Enum

/-! ### Programs -/

section Program

variable {p : Program} {s : Settings}

/-- An enumerator of a program is one of the database of the derived program. -/
theorem namesEnumerator_of_mem (henums : ∀ h ∈ p.headers, (h.enums.map fun e => e.fullName).Nodup)
    {e : Enumeration} (he : e ∈ p.enums) {y : Enumerator} (hy : y ∈ e.enumerators) :
    NamesEnumerator (ofProgram (p.derived s)) (e.fullName ++ "." ++ y.name) := by
  obtain ⟨h, hh, he⟩ := List.mem_flatMap.mp he
  let f : Class → Class := fun c => (c.derive (p.planContext s)).result
  let g : Enumeration → Enumeration := fun e => (e.outcome p.hasEnum).result
  have hfollows : ∀ k, (g k).Follows k := fun k => .outcome p.hasEnum k
  have hmem : h.mapTypes f g ∈ (p.derived s).headers := List.mem_map.mpr ⟨h, hh, rfl⟩
  have hnonempty : (h.mapTypes f g).isEmpty = false := by
    simp [Header.isEmpty, Header.mapTypes, List.ne_nil_of_mem he]
  have hfile : ofHeader (h.mapTypes f g) ∈ elements "Files" (ofProgram (p.derived s)) := by
    rw [elements_files]
    exact List.mem_map_of_mem (List.mem_filter.mpr ⟨hmem, by rw [hnonempty]; rfl⟩)
  -- No other enum of the header has the full name, so the entry under it is that of the enum.
  obtain ⟨v, hv, hlist⟩ := Keyed.exists_mem_ofList
    (List.mem_map_of_mem (f := fun d => (d.fullName, ofEnum d)) (List.mem_map_of_mem (f := g) he))
  obtain ⟨d, hd, hpair⟩ := List.mem_map.mp hlist
  obtain ⟨hname, rfl⟩ := Prod.mk.inj hpair
  obtain ⟨k, hk, rfl⟩ := List.mem_map.mp hd
  have hsame : k = e := by
    refine List.inj_on_of_nodup_map (henums h hh) hk he ?_
    rw [← (hfollows k).fullName, ← (hfollows e).fullName]
    exact hname
  subst hsame
  obtain ⟨q, hq, hfull⟩ := exists_enumerator_of_mem (hfollows k) hy
  exact ⟨_, hfile, _, hv, q, hq, hfull⟩

/-- The database of a program refers to itself.  Let every header of a program be accepted and the program be
derived without a fault.  If no two enums of a header have the same full name and all identifiers differ, then
in the written database of the derived program every method that was made from a declaration and every
accessor of a property is named by the full name of just one method of the class, what a method was made from
and the field that a property stands for are named by full names of the class and of its members, and the
flags that a class declares name its fields, enumerators of enums in the database, and its methods. -/
theorem closed_ofProgram (hp : p.IsAccepted) (hfaults : p.derivationFaults s = [])
    (henums : ∀ h ∈ p.headers, (h.enums.map fun e => e.fullName).Nodup)
    (huids : ((p.derived s).entities.map (·.declaration.uid)).Nodup) :
    Closed (ofProgram (p.derived s)) := by
  have hheader : ∀ file ∈ elements "Files" (ofProgram (p.derived s)), ∃ h ∈ p.headers,
      file = ofHeader (h.mapTypes (fun c => (c.derive (p.planContext s)).result)
        fun e => (e.outcome p.hasEnum).result) := by
    intro file hfile
    rw [elements_files] at hfile
    obtain ⟨k, hk, rfl⟩ := List.mem_map.mp hfile
    obtain ⟨h, hh, rfl⟩ := List.mem_map.mp (List.mem_filter.mp hk).1
    exact ⟨h, hh, rfl⟩
  refine ⟨fun file hfile q hq => ?_, fun file hfile q hq => ?_⟩
  · obtain ⟨h, hh, rfl⟩ := hheader file hfile
    rw [entries_classes] at hq
    obtain ⟨d, hd, rfl⟩ := List.mem_map.mp (Keyed.mem_of_mem_ofList hq)
    obtain ⟨c, hc, rfl⟩ := List.mem_map.mp hd
    obtain ⟨r, text, hr⟩ := hp h hh
    have hfault : (c.derive (p.planContext s)).fault = none := by
      have hnone := List.filterMap_eq_nil_iff.mp (List.append_eq_nil_iff.mp hfaults).1 c
        (List.mem_flatMap.mpr ⟨h, hh, hc⟩)
      exact Option.map_eq_none_iff.mp hnone
    have hmethods := Program.nodup_methodUids huids (c := (c.derive (p.planContext s)).result)
      (List.mem_flatMap.mpr ⟨_, List.mem_map_of_mem hh, List.mem_map_of_mem hc⟩)
    refine classIsClosed_ofClass (Class.isClosed_derive (Reader.readFrom_of_mem_classes hr hc)
      (Reader.isDeclared_of_mem_read hr hc) hfault) hmethods ?_
    rintro t ⟨name, e, he, y, hy, rfl⟩
    exact namesEnumerator_of_mem henums (List.mem_of_find?_eq_some he) hy
  · obtain ⟨h, hh, rfl⟩ := hheader file hfile
    rw [entries_enums] at hq
    obtain ⟨d, hd, rfl⟩ := List.mem_map.mp (Keyed.mem_of_mem_ofList hq)
    obtain ⟨e, he, rfl⟩ := List.mem_map.mp hd
    obtain ⟨r, text, hr⟩ := hp h hh
    exact enumIsClosed_ofEnum (.outcome p.hasEnum e) (Reader.readFrom_of_mem_enums hr he)

/-- A class with a field of flags, whose enum is in the same header. -/
theorem closed_ofProgram_flags :
    ∃ h : Header,
      (Reader.ofSettings {}).read ⟨.relative, ["Unit.h"]⟩
          ("REnum()\nenum class Color \x7b\nRed,\n\x7d;\nRClass(Abstract)\nclass Unit \x7b\nRBody();\nprivate:\n" ++
            "RField(Flags = Color)\nint mColors;\n\x7d;") = .ok h ∧
        (⟨[h]⟩ : Program).derivationFaults {} = [] ∧
        (((⟨[h]⟩ : Program).derived {}).classes.flatMap fun c => c.declaredFlags.map (·.enumerator)) =
          ["Color.Red"] ∧
        Closed (ofProgram ((⟨[h]⟩ : Program).derived {})) := by
  have hrun : ((Reader.ofSettings {}).read ⟨.relative, ["Unit.h"]⟩
      ("REnum()\nenum class Color \x7b\nRed,\n\x7d;\nRClass(Abstract)\nclass Unit \x7b\nRBody();\nprivate:\n" ++
        "RField(Flags = Color)\nint mColors;\n\x7d;")).toOption.any (fun h =>
        let p : Program := ⟨[h]⟩
        let q := p.derived {}
        (p.derivationFaults {}).isEmpty &&
          ((q.classes.flatMap fun c => c.declaredFlags.map (·.enumerator)) == ["Color.Red"] &&
            (decide (h.enums.map fun e => e.fullName).Nodup &&
              decide (q.entities.map (·.declaration.uid)).Nodup))) = true := by
    rw [Reader.read_ofList_append]
    decide +kernel
  obtain ⟨h, hread, hrun⟩ := Checked.exists_ok_of_any hrun
  obtain ⟨hfaults, hrun⟩ := Bool.and_eq_true_iff.mp hrun
  obtain ⟨hflags, hrun⟩ := Bool.and_eq_true_iff.mp hrun
  obtain ⟨henums, huids⟩ := Bool.and_eq_true_iff.mp hrun
  have henums : ∀ g ∈ (⟨[h]⟩ : Program).headers, (g.enums.map fun e => e.fullName).Nodup := by
    intro g hg
    obtain rfl := List.mem_singleton.mp hg
    exact of_decide_eq_true henums
  have hfaults : (⟨[h]⟩ : Program).derivationFaults {} = [] := List.isEmpty_iff.mp hfaults
  exact ⟨h, hread, hfaults, beq_iff_eq.mp hflags,
    closed_ofProgram (.singleton hread) hfaults henums (of_decide_eq_true huids)⟩

end Program

end HeaderReflection.Database
