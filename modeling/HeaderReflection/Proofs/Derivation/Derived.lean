import HeaderReflection.Proofs.Derivation.Faults
import HeaderReflection.Proofs.Derivation.Synthesis

/-! # What deriving a class leaves of it

However deriving a class ends, what remains is the class that its header states, with things added to it.

* What the header states of the class and of its members stays, its properties have as accessors only methods
  that the header declares or that the plan makes, and its declared flags refer to fields of the class and to
  enumerators of reflected enums (`Class.Follows`).
* Every effect of a plan keeps this (`ClassWork.Traced.perform`), so a run keeps it wherever it stops
  (`ClassWork.Traced.run`).  Effects are considered together with the plan that they are from, since what they
  make has to be among the methods of the plan.
* After the run the methods that were made join those of the class, and this is the class that is left
  (`Class.Derives`, `Class.exists_derives`).  If there is no fault, these are all methods of the plan.
* Then all references in the class have something that they refer to (`Class.isClosed_derive`).

Enums are derived one enumerator at a time and get no methods, so less is to say of them
(`Enumeration.Follows`). -/

namespace HeaderReflection

open Checked

/-! ### Declarations that are stated alike -/

namespace Declaration

variable {d e : Declaration}

theorem line_eq_of_stated (h : d.stated = e.stated) : d.line = e.line := by
  show d.stated.line = e.stated.line
  rw [h]

theorem uid_eq_of_stated (h : d.stated = e.stated) : d.uid = e.uid := by
  show d.stated.uid = e.stated.uid
  rw [h]

theorem name_eq_of_stated (h : d.stated = e.stated) : d.name = e.name := by
  show d.stated.name = e.stated.name
  rw [h]

end Declaration

/-! ### Properties as a whole -/

theorem Class.OwnsProperties.mapProperties {c : Class} {ms : List Method} (h : c.OwnsProperties ms)
    {f : Property → Property}
    (hf : ∀ p path line key, p.Belongs path line key ms → (f p).Belongs path line key ms) :
    (c.mapProperties f).OwnsProperties ms := by
  have hkeys : (c.mapProperties f).properties.keys = c.properties.keys := by
    unfold Class.mapProperties Keyed.keys
    rw [List.map_map]
    rfl
  refine ⟨hkeys ▸ h.keys, fun q hq => ?_⟩
  obtain ⟨p, hp, rfl⟩ := List.mem_map.mp hq
  exact hf p.2 c.path c.line p.1 (h.belongs p hp)

theorem Property.Belongs.congr {p q : Property} {path : SourcePath} {line : Nat} {key : String}
    {ms : List Method} (h : p.Belongs path line key ms) (hname : q.name = p.name) (huid : q.uid = p.uid)
    (hmade : q.synthesized = p.synthesized) (hgetter : q.getter = p.getter) (hsetter : q.setter = p.setter) :
    q.Belongs path line key ms := by
  refine ⟨hname.trans h.name, huid.trans h.uid, hmade.trans h.unmade, fun role l hl => ?_⟩
  cases role with
  | getter => exact h.accessor .getter l (hgetter.symm.trans hl)
  | setter => exact h.accessor .setter l (hsetter.symm.trans hl)

theorem Property.Belongs.inherit {p : Property} {path : SourcePath} {line : Nat} {key : String}
    {ms : List Method} (h : p.Belongs path line key ms) (fields : List Field) :
    (p.inherit fields).Belongs path line key ms := by
  unfold Property.inherit
  split
  · exact h
  · exact h.congr rfl rfl rfl rfl rfl

theorem Property.Belongs.materialize {p : Property} {path : SourcePath} {line : Nat} {key : String}
    {ms : List Method} (h : p.Belongs path line key ms) : p.materialize.Belongs path line key ms :=
  h.congr rfl rfl rfl rfl rfl

/-! ### Declared flags -/

/-- A declared flag refers to a field of the class, to an enumerator of a reflected enum, and to methods of
the list. -/
structure DeclaredFlag.Refers (f : DeclaredFlag) (x : PlanContext) (c : Class) (made : List Method) : Prop where
  field : ∃ g ∈ c.fields, g.name = f.field
  enumerator : ∃ name e, x.enumNamed name = some e ∧ ∃ y ∈ e.enumerators,
    f.enumerator = e.fullName ++ "." ++ y.name
  methods : ∀ l ∈ f.methods, ∃ m ∈ made, m.link = l

theorem mem_attachMethod {flag : String} {l : MethodLink} {f : DeclaredFlag} {fs : List DeclaredFlag}
    (h : f ∈ attachMethod flag l fs) : f ∈ fs ∨ ∃ g ∈ fs, f = { g with methods := g.methods ++ [l] } := by
  induction fs with
  | nil => exact absurd h List.not_mem_nil
  | cons g fs ih =>
      unfold attachMethod at h
      split at h
      · rcases List.mem_cons.mp h with rfl | h
        · exact .inr ⟨g, List.mem_cons_self, rfl⟩
        · exact .inl (List.mem_cons_of_mem g h)
      · rcases List.mem_cons.mp h with rfl | h
        · exact .inl List.mem_cons_self
        · rcases ih h with h | ⟨k, hk, rfl⟩
          · exact .inl (List.mem_cons_of_mem g h)
          · exact .inr ⟨k, List.mem_cons_of_mem g hk, rfl⟩

/-! ### Classes in the course of their derivation -/

/-- The class `d` is what has become of the class `c`, for which the methods in `made` are planned. -/
structure Class.Follows (d : Class) (x : PlanContext) (c : Class) (made : List Method) : Prop where
  path : d.path = c.path
  own : d.toDeclaration.stated = c.toDeclaration.stated
  scope : d.scope = c.scope
  properties : d.OwnsProperties (c.methods ++ made)
  declaredFlags : ∀ f ∈ d.declaredFlags, f.Refers x c made

namespace Class.Follows

variable {c d : Class} {x : PlanContext} {made : List Method}

theorem line (h : d.Follows x c made) : d.line = c.line := Declaration.line_eq_of_stated h.own

theorem uid (h : d.Follows x c made) : d.uid = c.uid := Declaration.uid_eq_of_stated h.own

theorem refl {header : SourcePath} (hc : c.ReadFrom header) : c.Follows x c made := by
  refine ⟨rfl, rfl, rfl, hc.properties.mono (List.subset_append_left _ _), ?_⟩
  rw [hc.declaredFlags]
  exact fun f hf => absurd hf List.not_mem_nil

theorem updateOrigin (h : d.Follows x c made) {f : Declaration → Declaration}
    (hf : ∀ k, (f k).stated = k.stated) (o : Origin) : (d.updateOrigin f o).Follows x c made := by
  cases o with
  | owner =>
      have hline : (f d.toDeclaration).line = d.line := Declaration.line_eq_of_stated (hf d.toDeclaration)
      exact ⟨h.path, (hf d.toDeclaration).trans h.own, h.scope, h.properties.congr rfl hline rfl, h.declaredFlags⟩
  | field i => exact ⟨h.path, h.own, h.scope, h.properties.congr rfl rfl rfl, h.declaredFlags⟩
  | method i => exact ⟨h.path, h.own, h.scope, h.properties.congr rfl rfl rfl, h.declaredFlags⟩

theorem elsewhere {e : Class} (h : d.Follows x c made) (htype : e.toTypeDeclaration = d.toTypeDeclaration)
    (hproperties : e.properties = d.properties) (hflags : e.declaredFlags = d.declaredFlags) :
    e.Follows x c made := by
  refine ⟨?_, ?_, ?_, h.properties.congr ?_ ?_ hproperties, ?_⟩
  · rw [htype, h.path]
  · rw [htype, h.own]
  · rw [htype, h.scope]
  · rw [htype]
  · rw [htype]
  · rw [hflags]
    exact h.declaredFlags

theorem claimProperty (h : d.Follows x c made) (name : String) (i : Nat) (type : String) :
    (d.claimProperty name i type).Follows x c made :=
  ⟨h.path, h.own, h.scope,
    h.properties.put ((h.properties.property name).congr rfl rfl rfl rfl rfl), h.declaredFlags⟩

theorem bindAccessor (h : d.Follows x c made) {role : AccessorRole} {name : String} {m : Method}
    (hm : m ∈ c.methods ++ made) {e : Class} (he : d.bindAccessor role name m.link = .ok e) :
    e.Follows x c made := by
  have howns := h.properties.bindAccessor hm he
  obtain ⟨ps, rfl⟩ := Reader.bindAccessor_yields d role name m.link e he
  exact ⟨h.path, h.own, h.scope, howns, h.declaredFlags⟩

theorem declareFlag (h : d.Follows x c made) {f : DeclaredFlag} (hf : f.Refers x c made) :
    ({ d with declaredFlags := d.declaredFlags ++ [f] } : Class).Follows x c made := by
  refine ⟨h.path, h.own, h.scope, h.properties.congr rfl rfl rfl, fun g hg => ?_⟩
  rcases List.mem_append.mp hg with hg | hg
  · exact h.declaredFlags g hg
  · exact List.mem_singleton.mp hg ▸ hf

theorem attach (h : d.Follows x c made) (flag : String) {m : Method} (hm : m ∈ made) :
    ({ d with declaredFlags := attachMethod flag m.link d.declaredFlags } : Class).Follows x c made := by
  refine ⟨h.path, h.own, h.scope, h.properties.congr rfl rfl rfl, fun f hf => ?_⟩
  rcases mem_attachMethod hf with hf | ⟨g, hg, rfl⟩
  · exact h.declaredFlags f hf
  · obtain ⟨hfield, henumerator, hmethods⟩ := h.declaredFlags g hg
    refine ⟨hfield, henumerator, fun l hl => ?_⟩
    rcases List.mem_append.mp hl with hl | hl
    · exact hmethods l hl
    · exact ⟨m, hm, (List.mem_singleton.mp hl).symm⟩

theorem mapProperties (h : d.Follows x c made) {f : Property → Property}
    (hf : ∀ p path line key, p.Belongs path line key (c.methods ++ made) →
      (f p).Belongs path line key (c.methods ++ made)) : (d.mapProperties f).Follows x c made :=
  ⟨h.path, h.own, h.scope, h.properties.mapProperties hf, h.declaredFlags⟩

theorem withMade (h : d.Follows x c made) (ms : List Method) : (d.withMade ms).Follows x c made := by
  have hinherit : (d.mapProperties (·.inherit d.fields)).Follows x c made :=
    h.mapProperties fun _ _ _ _ hp => hp.inherit d.fields
  exact hinherit.elsewhere rfl rfl rfl

end Class.Follows

/-! ### Runs -/

/-- A planned effect makes a method only from the class or from one of its members. -/
theorem Class.Planned.originIn {x : PlanContext} {c : Class} {es : List Effect} {e : Effect}
    (h : c.Planned x es e) : e.OriginIn c := by
  cases h with
  | singleton => exact rfl
  | proxy hm => simp [Effect.OriginIn, Class.HasOrigin, Class.origin?, hm]
  | accessor hf => simp [Effect.OriginIn, Class.HasOrigin, Class.origin?, hf]
  | flagAccessor hf => simp [Effect.OriginIn, Class.HasOrigin, Class.origin?, hf]
  | annotate | note | raiseProxy | claimProperty | bind | addToBody | declareFlag | attach | warn | fail => trivial

namespace ClassWork

/-- The work is on what has become of a class on the way through a plan. -/
structure Traced (w : ClassWork) (x : PlanContext) (c : Class) (es : List Effect) : Prop where
  sound : w.Sound c
  made : w.made ⊆ es.filterMap (Effect.made? c)
  owner : w.owner.Follows x c (es.filterMap (Effect.made? c))

variable {x : PlanContext} {c : Class} {es : List Effect} {w v : ClassWork}

theorem Traced.start {header : SourcePath} (hc : c.ReadFrom header) (hdeclared : c.IsDeclared) :
    ({ owner := c } : ClassWork).Traced x c es :=
  ⟨⟨rfl, rfl, rfl, hdeclared.registers⟩, List.nil_subset _, .refl hc⟩

/-- Performing an effect of the plan goes on with what has become of the class. -/
theorem Traced.follows (hw : w.Traced x c es) {e : Effect} (he : c.Planned x es e)
    (h : w.perform e = .ok v) : v.owner.Follows x c (es.filterMap (Effect.made? c)) := by
  have hmem : ∀ {s d}, Effect.synthesize s d ∈ es → c.synthesize s d ∈ es.filterMap (Effect.made? c) :=
    fun h => List.mem_filterMap.mpr ⟨_, h, rfl⟩
  cases e with
  | annotate o t =>
      obtain rfl := Except.ok.inj h
      exact hw.owner.updateOrigin (f := fun d => d.annotate o.kind t) (fun _ => rfl) o
  | note o n =>
      obtain rfl := Except.ok.inj h
      exact hw.owner.updateOrigin (f := fun d => d.note n) (fun _ => rfl) o
  | synthesize s d =>
      change w.synthesize s d = .ok v at h
      unfold ClassWork.synthesize at h
      split at h
      · cases h
      · obtain rfl := Except.ok.inj h
        exact hw.owner.updateOrigin
          (f := fun o => { o with synthesized := o.synthesized.put s.role (w.owner.synthesize s d).link })
          (fun _ => rfl) s.origin
  | claimProperty name i type =>
      obtain rfl := Except.ok.inj h
      exact hw.owner.claimProperty name i type
  | bind role property l line =>
      unfold perform at h
      dsimp only at h
      split at h
      · rename_i d hbind
        obtain rfl := Except.ok.inj h
        cases he with
        | bind _ _ hmade => exact hw.owner.bindAccessor (List.mem_append_right _ (hmem hmade)) hbind
      · cases h
  | declareFlag f =>
      obtain rfl := Except.ok.inj h
      cases he with
      | declareFlag hf henum hy =>
          refine hw.owner.declareFlag ⟨⟨_, List.mem_of_getElem? hf, rfl⟩, ⟨_, _, henum, _, hy, rfl⟩, ?_⟩
          exact fun l hl => absurd hl List.not_mem_nil
  | attach flag l =>
      obtain rfl := Except.ok.inj h
      cases he with
      | attach _ hmade => exact hw.owner.attach flag (hmem hmade)
  | raiseProxy =>
      obtain rfl := Except.ok.inj h
      exact hw.owner.elsewhere rfl rfl rfl
  | addToBody text =>
      obtain rfl := Except.ok.inj h
      exact hw.owner.elsewhere rfl rfl rfl
  | warn line message =>
      obtain rfl := Except.ok.inj h
      exact hw.owner
  | fail f => cases h

theorem Traced.perform (hw : w.Traced x c es) {e : Effect} (hmem : e ∈ es) (he : c.Planned x es e)
    (h : w.perform e = .ok v) : v.Traced x c es := by
  obtain ⟨hsound, hmade⟩ := hw.sound.perform he.originIn h
  refine ⟨hsound, ?_, hw.follows he h⟩
  rw [hmade]
  refine List.append_subset.mpr ⟨hw.made, fun m hm => ?_⟩
  exact List.mem_filterMap.mpr ⟨e, hmem, Option.mem_toList.mp hm⟩

theorem Traced.run (hw : w.Traced x c es) (hes : ∀ e ∈ es, c.Planned x es e) {fs : List Effect}
    (hfs : fs ⊆ es) : (w.run fs).1.Traced x c es := by
  induction fs generalizing w with
  | nil => exact hw
  | cons e fs ih =>
      obtain ⟨he, hfs⟩ := List.cons_subset.mp hfs
      unfold ClassWork.run
      cases hstep : w.perform e with
      | error f => exact hw
      | ok u => exact ih (hw.perform he (hes e he) hstep) hfs

end ClassWork

/-! ### Derived classes -/

/-- The class `d` is what deriving the class `c` left of it, with the methods in `ms` behind those that it
declares. -/
structure Class.Derives (d : Class) (x : PlanContext) (c : Class) (planned kept ms : List Method) : Prop where
  follows : d.Follows x c planned
  fields : d.fields.map Field.stated = c.fields.map Field.stated
  methods : d.methods = kept ++ ms
  declared : kept.map Method.stated = c.methods.map Method.stated
  made : ms ⊆ planned
  once : (ms.map Method.key?).Nodup

namespace Class

variable {x : PlanContext} {c : Class} {header : SourcePath}

theorem synthesized_of_made {es : List Effect} {m : Method} (hm : m ∈ es.filterMap (Effect.made? c)) :
    m.synthesized = [] ∧ m.noteOtherName = m := by
  obtain ⟨e, -, he⟩ := List.mem_filterMap.mp hm
  cases e with
  | synthesize s d =>
      obtain rfl := Option.some.inj he
      exact ⟨rfl, Method.noteOtherName_of_none rfl⟩
  | annotate | note | raiseProxy | claimProperty | bind | addToBody | declareFlag | attach | warn | fail => cases he

/-! ### Methods that join a class -/

theorem derives_withMade {w : ClassWork} {es : List Effect} (hw : w.Traced x c es) :
    (w.owner.withMade w.made).Derives x c (es.filterMap (Effect.made? c))
      (w.owner.methods.map Method.noteOtherName) w.made := by
  refine ⟨hw.owner.withMade w.made, hw.sound.fields, ?_, ?_, hw.made, hw.sound.registers.once⟩
  · have hmethods : (w.owner.withMade w.made).methods = (w.owner.methods ++ w.made).map Method.noteOtherName := rfl
    rw [hmethods, List.map_append]
    refine congrArg _ ((List.map_congr_left fun m hm => ?_).trans (List.map_id w.made))
    exact (synthesized_of_made (hw.made hm)).2
  · rw [← hw.sound.methods, List.map_map]
    exact List.map_congr_left fun m _ => m.stated_noteOtherName

theorem registers_withMade {w : ClassWork} {es : List Effect} (hw : w.Traced x c es) :
    (w.owner.withMade w.made).Registers w.made :=
  hw.sound.registers.congr fun o => madeFrom_withMade (fun _ hm => (synthesized_of_made (hw.made hm)).1) o

/-- Deriving a class that was just read leaves the class as stated, with methods of its plan behind those
that it declares.  If nothing went wrong, these are all the methods of the plan, and those in the maps. -/
theorem exists_derives (hc : c.ReadFrom header) (hdeclared : c.IsDeclared) :
    ∃ h declared made,
      (c.derive x).result.Derives x c ((c.plan x h).filterMap (Effect.made? c)) declared made ∧
        ((c.derive x).fault = none →
          made = (c.plan x h).filterMap (Effect.made? c) ∧ (c.derive x).result.Registers made) := by
  obtain ⟨h, hchoices⟩ := exists_choices (x := x) hc.valid
  have hplanned : ∀ e ∈ c.plan x h, c.Planned x (c.plan x h) e := fun e he => planned_of_mem_plan hc.valid he
  have hstart : ({ owner := c } : ClassWork).Traced x c (c.plan x h) := .start hc hdeclared
  have hend := hstart.run hplanned (List.Subset.refl _)
  refine ⟨h, ?_⟩
  unfold derive
  simp only [hchoices]
  rcases hrun : ClassWork.run { owner := c } (c.plan x h) with ⟨w, _ | f⟩
  · rw [hrun] at hend
    have hmade : w.made = (c.plan x h).filterMap (Effect.made? c) :=
      (hstart.sound.run (fun e he => (hplanned e he).originIn) hrun).2
    have hderives := derives_withMade hend
    have hregisters := registers_withMade hend
    refine ⟨w.owner.methods.map Method.noteOtherName, w.made, ?_⟩
    dsimp only
    split
    · exact ⟨hderives, fun _ => ⟨hmade, hregisters⟩⟩
    · refine ⟨?_, fun _ => ⟨hmade, hregisters.congr fun o => rfl⟩⟩
      exact ⟨hderives.follows.mapProperties fun _ _ _ _ hp => hp.materialize, hderives.fields,
        hderives.methods, hderives.declared, hderives.made, hderives.once⟩
  · rw [hrun] at hend
    refine ⟨w.owner.methods, [], ?_, fun hnone => absurd hnone nofun⟩
    exact ⟨hend.owner, hend.sound.fields, (List.append_nil _).symm, hend.sound.methods, List.nil_subset _,
      List.nodup_nil⟩

/-! ### References -/

/-- The methods and fields that a class refers to are its own, and the enumerators are given ones. -/
structure IsClosed (d : Class) (isEnumerator : String → Prop) : Prop where
  made : ∀ o, ∀ p ∈ d.madeFrom o, ∃ m ∈ d.methods, m.link = p.2
  unmade : ∀ q ∈ d.properties, q.2.synthesized = []
  accessor : ∀ q ∈ d.properties, ∀ role l, q.2.accessor role = some l → ∃ m ∈ d.methods, m.link = l
  flagField : ∀ f ∈ d.declaredFlags, ∃ g ∈ d.fields, g.name = f.field
  enumerator : ∀ f ∈ d.declaredFlags, isEnumerator f.enumerator
  flagMethod : ∀ f ∈ d.declaredFlags, ∀ l ∈ f.methods, ∃ m ∈ d.methods, m.link = l

/-- A class that is derived without a fault is closed. -/
theorem isClosed_derive (hc : c.ReadFrom header) (hdeclared : c.IsDeclared)
    (hfault : (c.derive x).fault = none) :
    (c.derive x).result.IsClosed fun s =>
      ∃ name e, x.enumNamed name = some e ∧ ∃ y ∈ e.enumerators, s = e.fullName ++ "." ++ y.name := by
  obtain ⟨h, kept, made, hd, hall⟩ := exists_derives (x := x) hc hdeclared
  obtain ⟨rfl, hregisters⟩ := hall hfault
  have hmade : ∀ m ∈ (c.plan x h).filterMap (Effect.made? c), m ∈ (c.derive x).result.methods := by
    intro m hm
    rw [hd.methods]
    exact List.mem_append_right _ hm
  -- A method that is stated alike has the same link.
  have hdeclares : ∀ m ∈ c.methods, ∃ k ∈ (c.derive x).result.methods, k.link = m.link := by
    intro m hm
    obtain ⟨k, hk, hstated⟩ := List.mem_map.mp (hd.declared ▸ List.mem_map_of_mem hm)
    refine ⟨k, ?_, ?_⟩
    · rw [hd.methods]
      exact List.mem_append_left _ hk
    · show k.stated.link = m.stated.link
      rw [hstated]
  refine ⟨fun o p hp => ?_, fun q hq => ?_, fun q hq role l hl => ?_, fun f hf => ?_, fun f hf => ?_,
    fun f hf l hl => ?_⟩
  · obtain ⟨m, hm, hlink⟩ := hregisters.value o p hp
    exact ⟨m, hmade m hm, hlink⟩
  · exact (hd.follows.properties.belongs q hq).unmade
  · obtain ⟨m, hm, rfl⟩ := (hd.follows.properties.belongs q hq).accessor role l hl
    rcases List.mem_append.mp hm with hm | hm
    · exact hdeclares m hm
    · exact ⟨m, hmade m hm, rfl⟩
  · obtain ⟨g, hg, hname⟩ := (hd.follows.declaredFlags f hf).field
    obtain ⟨k, hk, hstated⟩ := List.mem_map.mp (hd.fields ▸ List.mem_map_of_mem hg)
    refine ⟨k, hk, ?_⟩
    rw [← hname]
    exact Declaration.name_eq_of_stated (congrArg Field.toDeclaration hstated)
  · exact (hd.follows.declaredFlags f hf).enumerator
  · obtain ⟨m, hm, hlink⟩ := (hd.follows.declaredFlags f hf).methods l hl
    exact ⟨m, hmade m hm, hlink⟩

end Class

/-! ### Derived enums -/

/-- What a header states of an enumerator, with the methods that were made from it. -/
def Enumerator.stated (y : Enumerator) : Enumerator :=
  { y with toDeclaration := { y.toDeclaration.stated with synthesized := y.synthesized } }

theorem Enumerator.stated_toDeclaration {y z : Enumerator} (h : y.stated = z.stated) :
    y.toDeclaration.stated = z.toDeclaration.stated := by
  show y.stated.toDeclaration.stated = z.stated.toDeclaration.stated
  rw [h]

/-- The enum `d` is what has become of the enum `e`. -/
structure Enumeration.Follows (d e : Enumeration) : Prop where
  path : d.path = e.path
  own : d.toDeclaration.stated = e.toDeclaration.stated
  made : d.synthesized = e.synthesized
  scope : d.scope = e.scope
  enumerators : d.enumerators.map Enumerator.stated = e.enumerators.map Enumerator.stated

theorem Enumerator.derive_stated (isEnum : String → Bool) (path : SourcePath) (y : Enumerator) :
    Yields (y.derive isEnum path) fun d => d.stated = y.stated := by
  refine .bind (.any _) fun traits _ => .pure ?_
  unfold stated
  dsimp only
  split
  · rfl
  · rfl

namespace Enumeration.Follows

variable {d e : Enumeration}

theorem refl (e : Enumeration) : e.Follows e := ⟨rfl, rfl, rfl, rfl, rfl⟩

theorem fullName (h : d.Follows e) (separator : String) : d.fullName separator = e.fullName separator := by
  unfold TypeDeclaration.fullName TypeDeclaration.nameParts
  rw [h.scope, Declaration.name_eq_of_stated h.own]

theorem outcome (isEnum : String → Bool) (e : Enumeration) : (e.outcome isEnum).result.Follows e := by
  unfold Enumeration.outcome
  cases h : e.derive isEnum with
  | error f => exact refl e
  | ok d =>
      obtain ⟨traits, _, h⟩ := bind_eq_ok.mp h
      obtain ⟨ys, hys, h⟩ := bind_eq_ok.mp h
      obtain rfl := pure_eq_ok.mp h
      refine ⟨rfl, ?_, ?_, rfl, ?_⟩
      · dsimp only
        split
        · rfl
        · rfl
      · dsimp only
        split
        · rfl
        · rfl
      · exact map_eq_of_mapM (fun y _ z hz => Enumerator.derive_stated isEnum e.path y z hz) hys

end Enumeration.Follows

end HeaderReflection
