import HeaderReflection.Program.Entity
import HeaderReflection.Proofs.Derivation.Derived
import HeaderReflection.Proofs.Source.Lines
import HeaderReflection.Proofs.Uid

/-! # What identifies the declarations of a class

Every declaration is identified by a digest of the path of its header, of a line, and of what tells it from
other declarations for that line (`Entity.digested`).  What is declared at a line has nothing else in its
text; a method that is made has its role and its name there, and a property has its name.

* The lines of a class, its fields and its methods are different, and so are the lines of different classes.
  Declarations for different lines are told apart by the line (`Entity.IsIdentified.append`).
* In one class, the methods made for one line are made from one declaration (`Class.origin_eq_of_line_eq`),
  and one declaration has one method in a role.
* The properties of a class have different names, and no role is `property`.

The parts of a text stand behind each other with colons between them, so it is also needed that roles and the
names of enums hold no colons (`Enumeration.IsPlain`, `Method.IsMadeFor`).  Then in a class that was derived
from one whose declarations have different lines, no text is digested twice (`Class.Derives.isIdentified`). -/

namespace HeaderReflection

open Checked

/-! ### Digested texts -/

namespace Entity

/-- The path of the header that declares the type. -/
def path : Entity → SourcePath
  | .classType c | .field c _ | .method c _ | .property c _ => c.path
  | .enumType e | .enumerator e _ => e.path

/-- The line that a declaration is identified by. -/
def line : Entity → Nat
  | .classType c | .property c _ => c.line
  | .field _ f => f.line
  | .method _ m => m.actualLine
  | .enumType e => e.line
  | .enumerator _ x => x.line

/-- What tells a declaration from the one that is declared at its line. -/
def extra : Entity → List String
  | .method _ m => (m.synthesis.map fun s => [s.role, m.name]).getD []
  | .property _ p => ["property", p.name]
  | .classType _ | .field _ _ | .enumType _ | .enumerator _ _ => []

/-- The text whose digest identifies a declaration. -/
def digested (d : Entity) : String := Uid.input d.path d.line d.extra

/-- What identifies a declaration in its header. -/
def mark (d : Entity) : Nat × List String := (d.line, d.extra)

end Entity

/-- The declaration of the header `header` has the digest of its text as its identifier, for one of the given
lines. -/
structure Entity.Fits (d : Entity) (header : SourcePath) (lines : List Nat) : Prop where
  path : d.path = header
  uid : d.declaration.uid = Uid.ofText d.digested
  tail : Uid.IsTail d.extra
  line : d.line ∈ lines

theorem Entity.Fits.mono {d : Entity} {header : SourcePath} {lines lines' : List Nat}
    (h : d.Fits header lines) (hsub : lines ⊆ lines') : d.Fits header lines' :=
  ⟨h.path, h.uid, h.tail, hsub h.line⟩

theorem Entity.Fits.plain {d : Entity} {header : SourcePath} {lines : List Nat} (hpath : d.path = header)
    (huid : d.declaration.uid = Uid.compute header d.line) (hextra : d.extra = []) (hline : d.line ∈ lines) :
    d.Fits header lines := by
  refine ⟨hpath, ?_, ?_, hline⟩
  · unfold digested
    rw [huid, hpath, hextra]
    rfl
  · rw [hextra]
    exact .none

/-- All declarations of a list have the digests of their texts as identifiers, and no text is digested
twice. -/
structure IsIdentified (ds : List Entity) (header : SourcePath) (lines : List Nat) : Prop where
  each : ∀ d ∈ ds, d.Fits header lines
  marks : (ds.map Entity.mark).Nodup

/-- What tells the elements of a list apart is told apart by everything that tells it. -/
theorem nodup_map_of_nodup_map {α β γ : Type} {f : α → β} {g : α → γ} {l : List α} (h : (l.map f).Nodup)
    (hg : ∀ a ∈ l, ∀ b ∈ l, g a = g b → f a = f b) : (l.map g).Nodup := by
  unfold List.Nodup at h ⊢
  rw [List.pairwise_map] at h ⊢
  exact h.imp_of_mem fun ha hb hne heq => hne (hg _ ha _ hb heq)

namespace IsIdentified

variable {ds es : List Entity} {header : SourcePath} {lines lines' : List Nat}

theorem nil : IsIdentified [] header [] :=
  ⟨fun _ h => absurd h List.not_mem_nil, List.nodup_nil⟩

theorem append (hd : IsIdentified ds header lines) (he : IsIdentified es header lines')
    (hlines : (lines ++ lines').Nodup) : IsIdentified (ds ++ es) header (lines ++ lines') := by
  refine ⟨List.forall_mem_append.mpr ⟨fun d h => ?_, fun d h => ?_⟩, ?_⟩
  · exact (hd.each d h).mono (List.subset_append_left _ _)
  · exact (he.each d h).mono (List.subset_append_right _ _)
  · rw [List.map_append]
    refine List.nodup_append.mpr ⟨hd.marks, he.marks, ?_⟩
    rintro a ha b hb hab
    obtain ⟨d, hmem, rfl⟩ := List.mem_map.mp ha
    obtain ⟨e, hmem', rfl⟩ := List.mem_map.mp hb
    have hline : d.line = e.line := (Prod.mk.inj hab).1
    exact (List.nodup_append.mp hlines).2.2 _ (hd.each d hmem).line _ (he.each e hmem').line hline

theorem flatMap {α : Type} {l : List α} {entities : α → List Entity} {ownLines : α → List Nat}
    (h : ∀ a ∈ l, IsIdentified (entities a) header (ownLines a)) (hlines : (l.flatMap ownLines).Nodup) :
    IsIdentified (l.flatMap entities) header (l.flatMap ownLines) := by
  induction l with
  | nil => exact nil
  | cons a l ih =>
      obtain ⟨ha, hl⟩ := List.forall_mem_cons.mp h
      rw [List.flatMap_cons] at hlines
      exact ha.append (ih hl (List.nodup_append.mp hlines).2.1) hlines

end IsIdentified

/-! ### Names without colons -/

theorem Text.not_mem_of_isIdentifierChar {s : List Char} (h : ∀ c ∈ s, isIdentifierChar c = true) : ':' ∉ s :=
  fun hmem => absurd (h _ hmem) (by decide)

theorem not_mem_of_isIdentifier {s : List Char} (h : Text.isIdentifier s = true) : ':' ∉ s := by
  cases s with
  | nil => exact List.not_mem_nil
  | cons c s =>
      obtain ⟨hc, hs⟩ := Bool.and_eq_true_iff.mp h
      refine Text.not_mem_of_isIdentifierChar (List.forall_mem_cons.mpr ⟨?_, List.all_eq_true.mp hs⟩)
      exact Text.isIdentifierChar_of_isIdentifierStart hc

theorem not_mem_intercalate {s : String} {l : List String} (hs : ':' ∉ s.toList)
    (hl : ∀ t ∈ l, ':' ∉ t.toList) : ':' ∉ (String.intercalate s l).toList := by
  induction l with
  | nil => simp
  | cons t l ih =>
      obtain ⟨ht, hl⟩ := List.forall_mem_cons.mp hl
      cases l with
      | nil => simpa using ht
      | cons u l =>
          rw [String.intercalate_cons_cons]
          simp only [String.toList_append, List.mem_append, not_or]
          exact ⟨⟨ht, hs⟩, ih hl⟩

theorem TypeDeclaration.not_mem_fullName {t : TypeDeclaration} (hscope : IsNamespace t.scope)
    (hname : Lexer.IsWord t.name.toList) : ':' ∉ t.fullName.toList := by
  have hname : ':' ∉ t.name.toList := Text.not_mem_of_isIdentifierChar hname.2
  refine not_mem_intercalate (by decide) fun s hs => ?_
  unfold nameParts at hs
  split at hs
  · exact List.mem_singleton.mp hs ▸ hname
  · rename_i hempty
    rcases List.mem_append.mp hs with hs | hs
    · obtain ⟨part, hpart, rfl⟩ := List.mem_map.mp hs
      rw [String.toList_ofList]
      exact not_mem_of_isIdentifier (hscope.resolve_left hempty part hpart)
    · exact List.mem_singleton.mp hs ▸ hname

/-- No colon stands in the name of an enum or of an enumerator. -/
structure Enumeration.IsPlain (e : Enumeration) : Prop where
  fullName : ':' ∉ e.fullName.toList
  enumerators : ∀ y ∈ e.enumerators, ':' ∉ y.name.toList

theorem Enumeration.ReadFrom.isPlain {e : Enumeration} {header : SourcePath} (he : e.ReadFrom header)
    (hscope : IsNamespace e.scope) : e.IsPlain :=
  ⟨TypeDeclaration.not_mem_fullName hscope he.name, fun y hy => Text.not_mem_of_isIdentifierChar (he.names y hy).2⟩

/-! ### The methods that are made of a class -/

/-- The method is made from the class or from one of its members, in a role of its own. -/
structure Method.IsMadeFor (m : Method) (c : Class) (s : Synthesis) : Prop where
  synthesis : m.synthesis = some s
  line : m.line = 0
  uid : m.uid = Uid.compute c.path s.line [s.role, m.name]
  role : ':' ∉ s.role.toList
  notProperty : s.role ≠ "property"
  origin : ∃ o, c.origin? s.origin = some o ∧ o.line = s.line

namespace Class

variable {c : Class} {x : PlanContext} {es : List Effect}

theorem roleFor_plain {e : Enumeration} (he : e.IsPlain) {y : Enumerator} (hy : y ∈ e.enumerators)
    {a : FlagAccessor} (ha : ':' ∉ a.role.toList) :
    ':' ∉ (a.roleFor e y).toList ∧ a.roleFor e y ≠ "property" := by
  unfold FlagAccessor.roleFor
  refine ⟨?_, fun heq => ?_⟩
  · simp only [String.toList_append, List.mem_append, not_or]
    exact ⟨⟨⟨⟨ha, by decide⟩, he.fullName⟩, by decide⟩, he.enumerators y hy⟩
  · have hdot : '.' ∈ "property".toList := by
      rw [← heq]
      simp
    exact absurd hdot (by decide)

/-- Every method of a plan is made in a role without colons, if the enums have plain names. -/
theorem exists_isMadeFor (hplain : ∀ name e, x.enumNamed name = some e → e.IsPlain)
    (hes : ∀ e ∈ es, c.Planned x es e) {m : Method} (hm : m ∈ es.filterMap (Effect.made? c)) :
    ∃ s, m.IsMadeFor c s := by
  obtain ⟨e, he, hmade⟩ := List.mem_filterMap.mp hm
  have hshape := hes e he
  cases e with
  | synthesize s d =>
      obtain rfl := Option.some.inj hmade
      have huid : (c.synthesize s d).uid = Uid.compute c.path s.line [s.role, (c.synthesize s d).name] := rfl
      cases hshape with
      | singleton => exact ⟨_, rfl, rfl, huid, by simp, by simp, c.toDeclaration, rfl, rfl⟩
      | @proxy i k hk =>
          exact ⟨_, rfl, rfl, huid, by simp, by simp, k.toDeclaration, by simp [origin?, hk], rfl⟩
      | @accessor i f hf role d =>
          refine ⟨_, rfl, rfl, huid, ?_, ?_, f.toDeclaration, by simp [origin?, hf], rfl⟩
          · cases role
            all_goals simp [AccessorRole.label]
          · cases role
            all_goals simp [AccessorRole.label]
      | @flagAccessor i f name e y a hf henum hy ha d =>
          obtain ⟨hrole, hproperty⟩ := roleFor_plain (hplain name e henum) hy ha
          exact ⟨_, rfl, rfl, huid, hrole, hproperty, f.toDeclaration, by simp [origin?, hf], rfl⟩
  | annotate | note | raiseProxy | claimProperty | bind | addToBody | declareFlag | attach | warn | fail =>
      cases hmade

/-! ### Origins and lines -/

/-- The position of an origin among the lines of a class. -/
def originIndex (c : Class) : Origin → Nat
  | .owner => 0
  | .field i => i + 1
  | .method i => c.fields.length + i + 1

theorem ownLines_originIndex (hc : ∀ m ∈ c.methods, m.IsDeclared) {o : Origin} {d : Declaration}
    (hd : c.origin? o = some d) : c.ownLines[c.originIndex o]? = some d.line := by
  rw [c.ownLines_of_declared hc]
  cases o with
  | owner => exact congrArg (fun d : Declaration => some d.line) (Option.some.inj hd)
  | field i =>
      obtain ⟨f, hf, rfl⟩ := Option.map_eq_some_iff.mp hd
      have hi := (List.getElem?_eq_some_iff.mp hf).1
      have hbound : i < (c.fields.map (·.line)).length := by simpa using hi
      simp [originIndex, List.getElem?_append_left hbound, hf]
  | method i =>
      obtain ⟨m, hm, rfl⟩ := Option.map_eq_some_iff.mp hd
      simp [originIndex, List.getElem?_append_right, hm]

/-- In a class whose declarations have different lines, an origin is told by its line. -/
theorem origin_eq_of_line_eq (hc : ∀ m ∈ c.methods, m.IsDeclared) (hlines : c.ownLines.Nodup) {o k : Origin}
    {d e : Declaration} (hd : c.origin? o = some d) (he : c.origin? k = some e) (h : d.line = e.line) :
    o = k := by
  have hat := ownLines_originIndex hc hd
  have hindex : c.originIndex o = c.originIndex k :=
    (List.getElem?_inj (List.getElem?_eq_some_iff.mp hat).1 hlines).mp (by rw [hat, ownLines_originIndex hc he, h])
  have hbound : ∀ {i j}, c.origin? (.field i) = some j → i < c.fields.length := by
    intro i j hj
    obtain ⟨f, hf, -⟩ := Option.map_eq_some_iff.mp hj
    exact (List.getElem?_eq_some_iff.mp hf).1
  cases o with
  | owner =>
      cases k with
      | owner => rfl
      | field j => exact absurd hindex (by simp [originIndex])
      | method j => exact absurd hindex (by simp [originIndex])
  | field i =>
      have hi := hbound hd
      cases k with
      | owner => exact absurd hindex (by simp [originIndex])
      | field j => rw [Nat.succ.inj hindex]
      | method j =>
          simp only [originIndex] at hindex
          omega
  | method i =>
      cases k with
      | owner => exact absurd hindex (by simp [originIndex])
      | field j =>
          have hj := hbound he
          simp only [originIndex] at hindex
          omega
      | method j =>
          simp only [originIndex] at hindex
          rw [show i = j by omega]

end Class

/-! ### Classes and enums -/

theorem map_eq_of_stated {α β : Type} {s : α → α} {g : α → β} (hg : ∀ a, g (s a) = g a) {l k : List α}
    (h : l.map s = k.map s) : l.map g = k.map g := by
  have hsame : ∀ m : List α, (m.map s).map g = m.map g := by
    intro m
    rw [List.map_map]
    exact List.map_congr_left fun a _ => hg a
  rw [← hsame l, ← hsame k, h]

theorem exists_stated {α : Type} {s : α → α} {l k : List α} (h : l.map s = k.map s) {a : α} (ha : a ∈ l) :
    ∃ b ∈ k, s b = s a :=
  List.mem_map.mp (h ▸ List.mem_map_of_mem ha)

namespace Method

theorem actualLine_eq_of_none {m : Method} (h : m.synthesis = none) : m.actualLine = m.line := by
  unfold actualLine
  rw [h]
  split
  · rename_i hline
    exact hline.symm
  · rfl

theorem IsMadeFor.actualLine {m : Method} {c : Class} {s : Synthesis} (h : m.IsMadeFor c s) :
    m.actualLine = s.line := by
  unfold Method.actualLine
  rw [h.line, h.synthesis]
  rfl

theorem IsMadeFor.extra {m : Method} {c d : Class} {s : Synthesis} (h : m.IsMadeFor c s) :
    (Entity.method d m).extra = [s.role, m.name] := by
  show ((m.synthesis.map fun s => [s.role, m.name]).getD []) = _
  rw [h.synthesis]
  rfl

theorem extra_of_none {m : Method} {d : Class} (h : m.synthesis = none) : (Entity.method d m).extra = [] := by
  show ((m.synthesis.map fun s => [s.role, m.name]).getD []) = _
  rw [h]
  rfl

end Method

namespace Class.Derives

variable {c d : Class} {x : PlanContext} {planned kept ms : List Method} {header : SourcePath}

theorem kept_eq (h : d.Derives x c planned kept ms) (hc : c.ReadFrom header)
    (hdeclared : ∀ m ∈ c.methods, m.IsDeclared) {m : Method} (hm : m ∈ kept) :
    m.synthesis = none ∧ m.uid = Uid.compute header m.line := by
  obtain ⟨k, hk, hstated⟩ := exists_stated h.declared hm
  have hsynthesis : k.stated.synthesis = m.stated.synthesis := congrArg Method.synthesis hstated
  have hdeclaration : k.toDeclaration.stated = m.toDeclaration.stated := congrArg Method.toDeclaration hstated
  refine ⟨hsynthesis.symm.trans (hdeclared k hk).notMade, ?_⟩
  rw [← Declaration.uid_eq_of_stated hdeclaration, ← Declaration.line_eq_of_stated hdeclaration]
  exact (hc.methods k hk).uid

theorem field_uid (h : d.Derives x c planned kept ms) (hc : c.ReadFrom header) {f : Field} (hf : f ∈ d.fields) :
    f.uid = Uid.compute header f.line := by
  obtain ⟨g, hg, hstated⟩ := exists_stated h.fields hf
  have hdeclaration : g.toDeclaration.stated = f.toDeclaration.stated := congrArg Field.toDeclaration hstated
  rw [← Declaration.uid_eq_of_stated hdeclaration, ← Declaration.line_eq_of_stated hdeclaration]
  exact (hc.fields g hg).uid

theorem filterMap_ownLine?_made (h : d.Derives x c planned kept ms)
    (hmade : ∀ m ∈ planned, ∃ s, m.IsMadeFor c s) : ms.filterMap Method.ownLine? = [] := by
  refine List.filterMap_eq_nil_iff.mpr fun m hm => ?_
  obtain ⟨s, hs⟩ := hmade m (h.made hm)
  unfold Method.ownLine?
  rw [hs.synthesis]
  rfl

theorem ownLines_eq (h : d.Derives x c planned kept ms) (hmade : ∀ m ∈ planned, ∃ s, m.IsMadeFor c s) :
    d.ownLines = c.ownLines := by
  have hkept : kept.filterMap Method.ownLine? = c.methods.filterMap Method.ownLine? := by
    have hmap := map_eq_of_stated (s := Method.stated) (g := Method.ownLine?) (fun _ => rfl) h.declared
    simpa [List.filterMap_map] using congrArg (List.filterMap id) hmap
  have hfields := map_eq_of_stated (s := Field.stated) (g := fun f : Field => f.line) (fun _ => rfl) h.fields
  unfold ownLines
  rw [h.follows.line, hfields, h.methods, List.filterMap_append, hkept, h.filterMap_ownLine?_made hmade,
    List.append_nil]

theorem fits_kept (h : d.Derives x c planned kept ms) (hc : c.ReadFrom header)
    (hdeclared : ∀ m ∈ c.methods, m.IsDeclared) {m : Method} (hm : m ∈ kept) :
    (Entity.method d m).Fits header d.ownLines := by
  obtain ⟨hnone, huid⟩ := h.kept_eq hc hdeclared hm
  have hactual : (Entity.method d m).line = m.line := Method.actualLine_eq_of_none hnone
  refine .plain (h.follows.path.trans hc.path) (hactual ▸ huid) (Method.extra_of_none hnone) ?_
  rw [hactual]
  refine List.mem_cons_of_mem _ (List.mem_append_right _ (List.mem_filterMap.mpr ⟨m, ?_, ?_⟩))
  · exact h.methods ▸ List.mem_append_left _ hm
  · unfold Method.ownLine?
    rw [hnone]
    rfl

theorem fits_made (h : d.Derives x c planned kept ms) (hc : c.ReadFrom header)
    (hdeclared : ∀ m ∈ c.methods, m.IsDeclared) {m : Method} {s : Synthesis} (hs : m.IsMadeFor c s) :
    (Entity.method d m).Fits header c.ownLines := by
  refine ⟨h.follows.path.trans hc.path, ?_, ?_, ?_⟩
  · show m.uid = Uid.ofText (Uid.input d.path m.actualLine (Entity.method d m).extra)
    rw [hs.actualLine, hs.extra, hs.uid, h.follows.path]
    rfl
  · rw [hs.extra]
    exact .role _ hs.role
  · show m.actualLine ∈ c.ownLines
    obtain ⟨o, ho, hline⟩ := hs.origin
    rw [hs.actualLine, ← hline]
    exact List.mem_of_getElem? (ownLines_originIndex hdeclared ho)

theorem fits (h : d.Derives x c planned kept ms) (hc : c.ReadFrom header)
    (hdeclared : ∀ m ∈ c.methods, m.IsDeclared) (hmade : ∀ m ∈ planned, ∃ s, m.IsMadeFor c s) :
    ∀ e ∈ Entity.ofClass d, e.Fits header c.ownLines := by
  have hpath : d.path = header := h.follows.path.trans hc.path
  have hlines := h.ownLines_eq hmade
  have hline : d.line ∈ c.ownLines := hlines ▸ List.mem_cons_self
  refine Entity.forall_mem_ofClass.mpr ⟨?_, fun f hf => ?_, fun m hm => ?_, fun q hq => ?_⟩
  · have huid : d.uid = Uid.compute header d.line := by rw [h.follows.uid, hc.own.uid, h.follows.line]
    exact .plain hpath huid rfl hline
  · refine .plain hpath (h.field_uid hc hf) rfl ?_
    rw [← hlines]
    exact List.mem_cons_of_mem _ (List.mem_append_left _ (List.mem_map_of_mem hf))
  · rw [h.methods] at hm
    rcases List.mem_append.mp hm with hm | hm
    · exact hlines ▸ h.fits_kept hc hdeclared hm
    · obtain ⟨s, hs⟩ := hmade m (h.made hm)
      exact h.fits_made hc hdeclared hs
  · have hbelongs := h.follows.properties.belongs q hq
    refine ⟨hpath, ?_, .role _ (by decide), hline⟩
    show q.2.uid = Uid.ofText (Uid.input d.path d.line ["property", q.2.name])
    rw [hbelongs.uid, hbelongs.name]
    rfl

/-! ### Declarations at a line, made methods, properties -/

/-- What the class declares at lines of its own. -/
def own (d : Class) (kept : List Method) : List Entity :=
  .classType d :: (d.fields.map (.field d) ++ kept.map (.method d))

theorem ofClass_eq (h : d.Derives x c planned kept ms) :
    Entity.ofClass d = own d kept ++ ms.map (.method d) ++ d.properties.map fun q => .property d q.2 := by
  unfold Entity.ofClass own
  rw [h.methods, List.map_append]
  simp

theorem extra_own (h : d.Derives x c planned kept ms) (hc : c.ReadFrom header)
    (hdeclared : ∀ m ∈ c.methods, m.IsDeclared) {e : Entity} (he : e ∈ own d kept) : e.extra = [] := by
  rcases List.mem_cons.mp he with rfl | he
  · rfl
  rcases List.mem_append.mp he with he | he
  · obtain ⟨f, -, rfl⟩ := List.mem_map.mp he
    rfl
  · obtain ⟨m, hm, rfl⟩ := List.mem_map.mp he
    exact Method.extra_of_none (h.kept_eq hc hdeclared hm).1

theorem nodup_own (h : d.Derives x c planned kept ms) (hc : c.ReadFrom header)
    (hdeclared : ∀ m ∈ c.methods, m.IsDeclared) (hmade : ∀ m ∈ planned, ∃ s, m.IsMadeFor c s)
    (hnodup : c.ownLines.Nodup) : ((own d kept).map Entity.mark).Nodup := by
  refine nodup_map_of_nodup_map (f := Entity.line) ?_ fun a _ b _ hab => (Prod.mk.inj hab).1
  have hkept : kept.map (fun m => (Entity.method d m).line) = d.methods.filterMap Method.ownLine? := by
    rw [h.methods, List.filterMap_append, h.filterMap_ownLine?_made hmade, List.append_nil, ← List.filterMap_eq_map]
    refine List.filterMap_congr fun m hm => ?_
    have hnone := (h.kept_eq hc hdeclared hm).1
    unfold Method.ownLine?
    rw [hnone]
    exact congrArg some (Method.actualLine_eq_of_none hnone)
  have hlines : (own d kept).map Entity.line = d.ownLines := by
    unfold own ownLines
    rw [← hkept]
    simp [Entity.line, Function.comp_def]
  rw [hlines, h.ownLines_eq hmade]
  exact hnodup

/-- Methods for one line in one role have one origin, and an origin has one method in a role. -/
theorem nodup_made (h : d.Derives x c planned kept ms) (hdeclared : ∀ m ∈ c.methods, m.IsDeclared)
    (hmade : ∀ m ∈ planned, ∃ s, m.IsMadeFor c s) (hnodup : c.ownLines.Nodup) :
    ((ms.map (.method d)).map Entity.mark).Nodup := by
  rw [List.map_map]
  refine nodup_map_of_nodup_map h.once fun m hm k hk hmark => ?_
  obtain ⟨s, hs⟩ := hmade m (h.made hm)
  obtain ⟨t, ht⟩ := hmade k (h.made hk)
  obtain ⟨hline, hextra⟩ := Prod.mk.inj hmark
  have hline : s.line = t.line := hs.actualLine.symm.trans (hline.trans ht.actualLine)
  have hrole : s.role = t.role := (List.cons.inj (hs.extra.symm.trans (hextra.trans ht.extra))).1
  obtain ⟨o, ho, hoLine⟩ := hs.origin
  obtain ⟨p, hp, hpLine⟩ := ht.origin
  have horigin := origin_eq_of_line_eq hdeclared hnodup ho hp (by rw [hoLine, hpLine, hline])
  unfold Method.key?
  rw [hs.synthesis, ht.synthesis, Option.map_some, Option.map_some, horigin, hrole]

theorem nodup_properties (h : d.Derives x c planned kept ms) :
    ((d.properties.map fun q => Entity.property d q.2).map Entity.mark).Nodup := by
  rw [List.map_map]
  refine nodup_map_of_nodup_map (f := Prod.fst) h.follows.properties.keys fun q hq p hp hmark => ?_
  have hname : q.2.name = p.2.name := by simpa [Entity.mark, Entity.extra] using congrArg Prod.snd hmark
  rw [← (h.follows.properties.belongs q hq).name, ← (h.follows.properties.belongs p hp).name, hname]

/-- No two declarations of the class have the same mark: what is declared at a line, what is made and the
properties differ in what stands behind the line. -/
theorem nodup_marks (h : d.Derives x c planned kept ms) (hc : c.ReadFrom header)
    (hdeclared : ∀ m ∈ c.methods, m.IsDeclared) (hmade : ∀ m ∈ planned, ∃ s, m.IsMadeFor c s)
    (hnodup : c.ownLines.Nodup) : ((Entity.ofClass d).map Entity.mark).Nodup := by
  have hseparate : ∀ {ds es : List Entity}, (∀ a ∈ ds, ∀ b ∈ es, a.extra ≠ b.extra) →
      ∀ a ∈ ds.map Entity.mark, ∀ b ∈ es.map Entity.mark, a ≠ b := by
    rintro ds es hne a ha b hb hab
    obtain ⟨e, he, rfl⟩ := List.mem_map.mp ha
    obtain ⟨k, hk, rfl⟩ := List.mem_map.mp hb
    exact hne e he k hk (congrArg Prod.snd hab)
  rw [h.ofClass_eq, List.map_append, List.map_append, ← List.map_append]
  refine List.nodup_append.mpr ⟨?_, h.nodup_properties, hseparate fun e he k hk => ?_⟩
  · rw [List.map_append]
    refine List.nodup_append.mpr ⟨h.nodup_own hc hdeclared hmade hnodup,
      h.nodup_made hdeclared hmade hnodup, hseparate fun e he k hk => ?_⟩
    obtain ⟨m, hm, rfl⟩ := List.mem_map.mp hk
    obtain ⟨s, hs⟩ := hmade m (h.made hm)
    rw [h.extra_own hc hdeclared he, hs.extra]
    exact nofun
  · obtain ⟨q, hq, rfl⟩ := List.mem_map.mp hk
    rcases List.mem_append.mp he with he | he
    · rw [h.extra_own hc hdeclared he]
      exact nofun
    · obtain ⟨m, hm, rfl⟩ := List.mem_map.mp he
      obtain ⟨s, hs⟩ := hmade m (h.made hm)
      rw [hs.extra]
      exact fun heq => hs.notProperty (List.cons.inj heq).1

theorem isIdentified (h : d.Derives x c planned kept ms) (hc : c.ReadFrom header)
    (hdeclared : ∀ m ∈ c.methods, m.IsDeclared) (hmade : ∀ m ∈ planned, ∃ s, m.IsMadeFor c s)
    (hnodup : c.ownLines.Nodup) : IsIdentified (Entity.ofClass d) header c.ownLines :=
  ⟨h.fits hc hdeclared hmade, h.nodup_marks hc hdeclared hmade hnodup⟩

end Class.Derives

end HeaderReflection
