import HeaderReflection.Proofs.Derivation.Marks
import HeaderReflection.Proofs.Source.Characters
import Mathlib.Data.List.Flatten
import Mathlib.Data.List.Perm.Basic

/-! # What identifies the declarations of a program

Declarations are identified by digests of texts.  In a program of accepted headers with different paths no
text is digested twice, neither before the program is derived nor afterwards, however that ended.

* In one header, classes, enums and their members stand at different lines, and what is derived from a class
  is told apart as in `Class.Derives.isIdentified`.  So the declarations of the header are
  (`Header.isIdentified_mapTypes`).
* Between headers it is the path that differs.  It stands in front in every text that is digested, and since
  it has no colon, the text can be taken apart again behind it (`nodup_uids_of_identified`).

So if the digests of these texts differ, all declarations have different identifiers, and all methods have
different full names (`Program.nodup_uids`).  That digests of different texts differ is an assumption, and it
is made only for the texts that the program digests. -/

namespace HeaderReflection

open Checked

/-! ### Headers -/

theorem Enumeration.Follows.isIdentified {d e : Enumeration} {header : SourcePath} (h : d.Follows e)
    (he : e.ReadFrom header) (hnodup : e.ownLines.Nodup) :
    IsIdentified (Entity.ofEnum d) header e.ownLines := by
  have hpath : d.path = header := h.path.trans he.path
  have hlines : (Entity.ofEnum d).map Entity.line = e.ownLines := by
    have henumerators := map_eq_of_stated (s := Enumerator.stated) (g := fun y : Enumerator => y.line)
      (fun _ => rfl) h.enumerators
    unfold Entity.ofEnum Enumeration.ownLines
    rw [← Declaration.line_eq_of_stated h.own, ← henumerators]
    simp [Entity.line, Function.comp_def]
  have hline : ∀ k ∈ Entity.ofEnum d, k.line ∈ e.ownLines := fun k hk => hlines ▸ List.mem_map_of_mem hk
  obtain ⟨hown, henumerators⟩ := Entity.forall_mem_ofEnum.mp hline
  refine ⟨Entity.forall_mem_ofEnum.mpr ⟨?_, fun y hy => ?_⟩, ?_⟩
  · refine .plain hpath ?_ rfl hown
    show d.uid = Uid.compute header d.line
    rw [Declaration.uid_eq_of_stated h.own, he.own.uid, Declaration.line_eq_of_stated h.own]
  · refine .plain hpath ?_ rfl (henumerators y hy)
    obtain ⟨z, hz, hstated⟩ := exists_stated h.enumerators hy
    have hdeclaration := Enumerator.stated_toDeclaration hstated
    show y.uid = Uid.compute header y.line
    rw [← Declaration.uid_eq_of_stated hdeclaration, ← Declaration.line_eq_of_stated hdeclaration,
      (he.enumerators z hz).uid]
  · refine nodup_map_of_nodup_map (f := Entity.line) ?_ fun a _ b _ hab => (Prod.mk.inj hab).1
    rw [hlines]
    exact hnodup

namespace Header

/-- The header with its classes and enums changed. -/
def mapTypes (h : Header) (f : Class → Class) (g : Enumeration → Enumeration) : Header :=
  { h with classes := h.classes.map f, enums := h.enums.map g }

theorem isIdentified_mapTypes {r : Reader} {text : String} {h : Header} (hr : r.read h.path text = .ok h)
    {f : Class → Class} {g : Enumeration → Enumeration} {x : PlanContext}
    (hf : ∀ c ∈ h.classes, ∃ planned kept ms, (f c).Derives x c planned kept ms ∧
      ∀ m ∈ planned, ∃ s, m.IsMadeFor c s)
    (hg : ∀ e ∈ h.enums, (g e).Follows e) :
    IsIdentified (h.mapTypes f g).entities h.path h.ownLines := by
  have hnodup := Reader.nodup_ownLines hr
  obtain ⟨hclasses, henums, -⟩ := List.nodup_append.mp hnodup
  unfold entities mapTypes
  dsimp only
  rw [List.flatMap_map, List.flatMap_map]
  refine .append (.flatMap (fun c hc => ?_) hclasses) (.flatMap (fun e he => ?_) henums) hnodup
  · obtain ⟨planned, kept, ms, hderives, hmade⟩ := hf c hc
    exact hderives.isIdentified (Reader.readFrom_of_mem_classes hr hc)
      (Reader.isDeclared_of_mem_read hr hc).methods hmade ((List.nodup_flatMap.mp hclasses).1 c hc)
  · exact (hg e he).isIdentified (Reader.readFrom_of_mem_enums hr he) ((List.nodup_flatMap.mp henums).1 e he)

end Header

/-! ### Programs -/

namespace Program

variable {p q : Program} {s : Settings}

/-- The declarations of a program, header by header. -/
theorem entities_perm (p : Program) : p.entities.Perm (p.headers.flatMap Header.entities) := by
  unfold entities classes enums
  rw [List.flatMap_assoc, List.flatMap_assoc]
  exact List.flatMap_append_perm _ _ _

/-- Every header was accepted by a reader whose default namespace is a namespace. -/
def IsAcceptedInNamespaces (p : Program) : Prop :=
  ∀ h ∈ p.headers, ∃ (r : Reader) (text : String),
    IsNamespace r.settings.defaultNamespace ∧ r.read h.path text = .ok h

theorem IsAcceptedInNamespaces.isPlain (hp : p.IsAcceptedInNamespaces) {name : String} {e : Enumeration}
    (he : p.findEnum? name = some e) : e.IsPlain := by
  obtain ⟨h, hh, he⟩ := List.mem_flatMap.mp (List.mem_of_find?_eq_some he)
  obtain ⟨r, text, hdefault, hr⟩ := hp h hh
  exact (Reader.readFrom_of_mem_enums hr he).isPlain (Reader.isNamespace_of_mem_enums hr hdefault he)

theorem IsAcceptedInNamespaces.isIdentified (hp : p.IsAcceptedInNamespaces) {h : Header} (hh : h ∈ p.headers) :
    IsIdentified h.entities h.path h.ownLines ∧
      IsIdentified (h.mapTypes (fun c => (c.derive (p.planContext s)).result)
        fun e => (e.outcome p.hasEnum).result).entities h.path h.ownLines := by
  obtain ⟨r, text, -, hr⟩ := hp h hh
  constructor
  · have hself := Header.isIdentified_mapTypes (f := id) (g := id) (x := p.planContext s) hr
      (fun c hc => ⟨[], c.methods, [], ?_, fun m hm => absurd hm List.not_mem_nil⟩) fun e _ => .refl e
    · simpa [Header.mapTypes] using hself
    · exact ⟨.refl (Reader.readFrom_of_mem_classes hr hc), rfl, (List.append_nil _).symm, rfl,
        List.nil_subset _, List.nodup_nil⟩
  · refine Header.isIdentified_mapTypes (x := p.planContext s) hr (fun c hc => ?_) fun e _ => .outcome _ e
    have hread := Reader.readFrom_of_mem_classes hr hc
    obtain ⟨choices, kept, ms, hderives, -⟩ :=
      Class.exists_derives (x := p.planContext s) hread (Reader.isDeclared_of_mem_read hr hc)
    exact ⟨_, kept, ms, hderives, fun m hm =>
      Class.exists_isMadeFor (fun _ _ he => hp.isPlain he) (fun e he => Class.planned_of_mem_plan hread.valid he) hm⟩

/-- The declarations of headers with different paths are identified if the digests of their texts differ. -/
theorem nodup_uids_of_identified {hs : List Header} (hpaths : (hs.map (·.path.text)).Nodup)
    (hcolon : ∀ h ∈ hs, ':' ∉ h.path.text.toList)
    (heach : ∀ h ∈ hs, ∃ lines, IsIdentified h.entities h.path lines)
    (hinj : ∀ a ∈ hs.flatMap Header.entities, ∀ b ∈ hs.flatMap Header.entities,
      Uid.ofText a.digested = Uid.ofText b.digested → a.digested = b.digested) :
    ((hs.flatMap Header.entities).map (·.declaration.uid)).Nodup := by
  have hfits : ∀ h ∈ hs, ∀ a ∈ h.entities, ∃ lines, a.Fits h.path lines := by
    intro h hh a ha
    obtain ⟨lines, hidentified⟩ := heach h hh
    exact ⟨lines, hidentified.each a ha⟩
  -- Within a header the marks tell the declarations apart, and the paths do it across headers.
  have hplaces : ((hs.flatMap Header.entities).map fun a => (a.path.text, a.mark)).Nodup := by
    rw [List.map_flatMap]
    refine List.nodup_flatMap.mpr ⟨fun h hh => ?_, ?_⟩
    · obtain ⟨lines, hidentified⟩ := heach h hh
      exact nodup_map_of_nodup_map hidentified.marks fun a _ b _ hab => (Prod.mk.inj hab).2
    · unfold List.Nodup at hpaths
      rw [List.pairwise_map] at hpaths
      refine hpaths.imp_of_mem fun {g h} hg hh hne => ?_
      intro place hmem hmem'
      obtain ⟨a, ha, rfl⟩ := List.mem_map.mp hmem
      obtain ⟨b, hb, hplace⟩ := List.mem_map.mp hmem'
      have htext : b.path.text = a.path.text := (Prod.mk.inj hplace).1
      obtain ⟨_, hfitsA⟩ := hfits g hg a ha
      obtain ⟨_, hfitsB⟩ := hfits h hh b hb
      rw [hfitsA.path, hfitsB.path] at htext
      exact hne htext.symm
  refine nodup_map_of_nodup_map hplaces fun a ha b hb huid => ?_
  obtain ⟨g, hg, hmemA⟩ := List.mem_flatMap.mp ha
  obtain ⟨h, hh, hmemB⟩ := List.mem_flatMap.mp hb
  obtain ⟨_, hfitsA⟩ := hfits g hg a hmemA
  obtain ⟨_, hfitsB⟩ := hfits h hh b hmemB
  have hdigested : a.digested = b.digested := hinj a ha b hb (by rw [← hfitsA.uid, ← hfitsB.uid, huid])
  obtain ⟨htext, hline, hextra⟩ := Uid.input_inj (hfitsA.path ▸ hcolon g hg) (hfitsB.path ▸ hcolon h hh)
    hfitsA.tail hfitsB.tail hdigested
  exact Prod.mk.injEq .. ▸ ⟨htext, Prod.mk.injEq .. ▸ ⟨hline, hextra⟩⟩

theorem methods_sublist (q : Program) :
    (q.classes.flatMap fun c => c.methods.map (Entity.method c)).Sublist q.entities := by
  refine .trans (.flatMap_right _ fun c _ => ?_) (List.sublist_append_left _ _)
  refine .cons _ (.trans ?_ (List.sublist_append_left _ _))
  exact List.sublist_append_right _ _

theorem nodup_methodUids {q : Program} (hq : (q.entities.map (·.declaration.uid)).Nodup) {c : Class}
    (hc : c ∈ q.classes) : (c.methods.map (·.uid)).Nodup := by
  have hmethods := List.Nodup.sublist (q.methods_sublist.map (·.declaration.uid)) hq
  rw [List.map_flatMap] at hmethods
  have hclass := (List.nodup_flatMap.mp hmethods).1 c hc
  rw [List.map_map] at hclass
  exact hclass

/-- Methods are told apart by what tells their identifiers. -/
theorem nodup_methods {q : Program} (hq : (q.entities.map (·.declaration.uid)).Nodup)
    {name : Class → Method → String} (hname : ∀ c m d k, name c m = name d k → m.uid = k.uid) :
    (q.classes.flatMap fun c => c.methods.map (name c)).Nodup := by
  let f : Entity → String
    | .method c m => name c m
    | _ => ""
  have hmethods := List.Nodup.sublist (q.methods_sublist.map (·.declaration.uid)) hq
  have hnames : (q.classes.flatMap fun c => c.methods.map (name c)) =
      (q.classes.flatMap fun c => c.methods.map (Entity.method c)).map f := by
    rw [List.map_flatMap]
    simp [f, Function.comp_def]
  rw [hnames]
  refine nodup_map_of_nodup_map hmethods fun a ha b hb hab => ?_
  obtain ⟨c, -, ha⟩ := List.mem_flatMap.mp ha
  obtain ⟨m, -, rfl⟩ := List.mem_map.mp ha
  obtain ⟨d, -, hb⟩ := List.mem_flatMap.mp hb
  obtain ⟨k, -, rfl⟩ := List.mem_map.mp hb
  exact hname c m d k hab

/-- Identifiers tell declarations apart.  Let every header of a program be accepted by a reader whose default
namespace is a namespace, and let the headers have different paths without colons.  If different texts that
are digested have different digests, then all declarations have different identifiers, and all methods have
different unique names and different full names.  This holds before the program is derived and afterwards,
whether or not that went well. -/
theorem nodup_uids (hp : p.IsAcceptedInNamespaces) (hpaths : (p.headers.map (·.path.text)).Nodup)
    (hcolon : ∀ h ∈ p.headers, ':' ∉ h.path.text.toList) (s : Settings) (hq : q = p ∨ q = p.derived s)
    (hinj : ∀ a ∈ q.entities, ∀ b ∈ q.entities,
      Uid.ofText a.digested = Uid.ofText b.digested → a.digested = b.digested) :
    (q.entities.map (·.declaration.uid)).Nodup ∧
      (q.classes.flatMap fun c => c.methods.map fun m => MethodLink.uniqueName m.name m.uid).Nodup ∧
      ∀ separator, (q.classes.flatMap fun c => c.methods.map fun m => c.methodName m separator).Nodup := by
  have huids : (q.entities.map (·.declaration.uid)).Nodup := by
    have hperm := q.entities_perm
    refine (hperm.map _).nodup_iff.mpr ?_
    have hinj : ∀ a ∈ q.headers.flatMap Header.entities, ∀ b ∈ q.headers.flatMap Header.entities,
        Uid.ofText a.digested = Uid.ofText b.digested → a.digested = b.digested :=
      fun a ha b hb => hinj a (hperm.mem_iff.mpr ha) b (hperm.mem_iff.mpr hb)
    rcases hq with rfl | rfl
    · exact nodup_uids_of_identified hpaths hcolon (fun h hh => ⟨_, (hp.isIdentified (s := s) hh).1⟩) hinj
    · refine nodup_uids_of_identified ?_ (List.forall_mem_map.mpr hcolon) (List.forall_mem_map.mpr ?_) hinj
      · rw [derived, List.map_map]
        exact hpaths
      · exact fun h hh => ⟨_, (hp.isIdentified hh).2⟩
  refine ⟨huids, nodup_methods huids fun c m d k h => ?_, fun separator => nodup_methods huids fun c m d k h => ?_⟩
  · exact MethodLink.uid_eq_of_uniqueName_eq h
  · exact Class.uid_eq_of_methodName_eq h

/-- A class with a field, a declared method, and a getter and a property that are made from the field. -/
theorem nodup_uids_getter :
    ∃ h : Header,
      (Reader.ofSettings {}).read ⟨.relative, ["Unit.h"]⟩
          ("RClass(Abstract)\nclass Unit \x7b\nRBody();\nprivate:\nRField(Getter = true)\nint mSize;\n" ++
            "RMethod()\nvoid Run();\n\x7d;") = .ok h ∧
        (((⟨[h]⟩ : Program).derived {}).entities.map (·.kind)) =
          [.classType, .field, .method, .method, .property] ∧
        (((⟨[h]⟩ : Program).derived {}).entities.map (·.declaration.uid)).Nodup := by
  have hrun : ((Reader.ofSettings {}).read ⟨.relative, ["Unit.h"]⟩
      ("RClass(Abstract)\nclass Unit \x7b\nRBody();\nprivate:\nRField(Getter = true)\nint mSize;\n" ++
        "RMethod()\nvoid Run();\n\x7d;")).toOption.any (fun h =>
        let ds := ((⟨[h]⟩ : Program).derived {}).entities
        ds.map (·.kind) == [.classType, .field, .method, .method, .property] &&
          decide (ds.map fun d => Uid.ofText d.digested).Nodup) = true := by
    rw [Reader.read_ofList_append]
    decide +kernel
  obtain ⟨h, hread, hrun⟩ := Checked.exists_ok_of_any hrun
  obtain ⟨hkinds, hdigests⟩ := Bool.and_eq_true_iff.mp hrun
  have hpath : h.path = ⟨.relative, ["Unit.h"]⟩ := Reader.read_path hread
  have haccepted : (⟨[h]⟩ : Program).IsAcceptedInNamespaces := by
    intro g hg
    obtain rfl := List.mem_singleton.mp hg
    exact ⟨Reader.ofSettings {}, _, .inl rfl, hpath ▸ hread⟩
  have hcolon : ∀ g ∈ (⟨[h]⟩ : Program).headers, ':' ∉ g.path.text.toList := by
    intro g hg
    obtain rfl := List.mem_singleton.mp hg
    rw [hpath]
    decide +kernel
  have huids := nodup_uids haccepted (List.nodup_singleton _) hcolon {} (.inr rfl) fun a ha b hb hab =>
    congrArg Entity.digested (List.inj_on_of_nodup_map (of_decide_eq_true hdigests) ha hb hab)
  exact ⟨h, hread, beq_iff_eq.mp hkinds, huids.1⟩

end Program

end HeaderReflection
