import HeaderReflection.Proofs.Derivation.Derived
import Mathlib.Data.List.Forall2

/-! # Deriving only adds

Whatever a header states of its classes and enums and of their members stays as it is, however often a program
is derived and under whatever settings, and whether that goes well or not (`Program.enriches_rederived`).

* The methods of a class stay in front of those that join it.  Its flags stay raised, with at most the one of
  the proxy beside them, and an accessor that is bound to a property stays bound (`Class.Enriches`).
* Every single effect keeps to this (`ClassWork.perform_enriches`), so it does not matter where a run stops
  (`ClassWork.run_enriches`) and nothing is assumed of the plan that the effects are from.
* Classes are derived in the context of the whole program, but only to look things up there, and so a header
  and a program are enriched because their classes are (`Program.derived_enriches`).

All these relations are reflexive and transitive, and this is what several derivations in turn need.  A class
that was derived before is derived like any other: it may get more methods, and its derivation may fail over
those that it has. -/

namespace HeaderReflection

open Checked

/-! ### What a header states of its types -/

/-- What a header states of a class apart from its methods, properties and flags. -/
def Class.stated (c : Class) : Class :=
  { c with
    toDeclaration := c.toDeclaration.stated
    fields := c.fields.map Field.stated
    methods := []
    properties := []
    flags := {}
    bodyAdditions := []
    declaredFlags := []
    methodsByName := [] }

/-- What a header states of an enum. -/
def Enumeration.stated (e : Enumeration) : Enumeration :=
  { e with
    toDeclaration := e.toDeclaration.stated
    enumerators := e.enumerators.map Enumerator.stated }

/-- The accessors of `p` are bound to the same sides of `q`. -/
def Property.Keeps (q p : Property) : Prop := ∀ role m, p.accessor role = some m → q.accessor role = some m

namespace Property.Keeps

variable {p q r : Property}

theorem refl (p : Property) : p.Keeps p := fun _ _ h => h

theorem trans (h : r.Keeps q) (h' : q.Keeps p) : r.Keeps p := fun role m hm => h role m (h' role m hm)

theorem of_eq (hgetter : q.getter = p.getter) (hsetter : q.setter = p.setter) : q.Keeps p := by
  intro role m hm
  cases role with
  | getter => exact hgetter.trans hm
  | setter => exact hsetter.trans hm

/-- A side that is taken is not bound again, and binding a free side leaves the other alone. -/
theorem bind {role : AccessorRole} {m : MethodLink} (h : p.bind role m = .ok q) : q.Keeps p := by
  intro side l hl
  by_cases hside : side = role
  · subst hside
    rw [bind_taken hl] at h
    cases h
  · rw [accessor_bind_of_ne hside h, hl]

theorem inherit (p : Property) (fields : List Field) : (p.inherit fields).Keeps p := by
  unfold Property.inherit
  split
  · exact refl p
  · exact of_eq rfl rfl

theorem materialize (p : Property) : p.materialize.Keeps p := of_eq rfl rfl

end Property.Keeps

/-! ### Classes -/

theorem Class.stated_methods_withMade (c : Class) (made : List Method) :
    (c.withMade made).methods.map Method.stated = (c.methods ++ made).map Method.stated := by
  show ((c.methods ++ made).map Method.noteOtherName).map Method.stated = _
  rw [List.map_map]
  exact List.map_congr_left fun m _ => m.stated_noteOtherName

/-- The class `d` is the class `c` with things added to it. -/
structure Class.Enriches (d c : Class) : Prop where
  stated : d.stated = c.stated
  methods : c.methods.map Method.stated <+: d.methods.map Method.stated
  keeps : ∀ f, c.flags.has f = true → d.flags.has f = true
  raises : ∀ f, d.flags.has f = true → c.flags.has f = true ∨ f = .hasProxy
  properties : ∀ name p, c.properties.get? name = some p → ∃ q, d.properties.get? name = some q ∧ q.Keeps p

namespace Class.Enriches

variable {c d e : Class}

theorem refl (c : Class) : c.Enriches c :=
  ⟨rfl, List.prefix_refl _, fun _ => id, fun _ => .inl, fun _ p h => ⟨p, h, .refl p⟩⟩

theorem trans (h : e.Enriches d) (h' : d.Enriches c) : e.Enriches c := by
  refine ⟨h.stated.trans h'.stated, h'.methods.trans h.methods, ?_, ?_, ?_⟩
  · exact fun f hf => h.keeps f (h'.keeps f hf)
  · exact fun f hf => (h.raises f hf).elim (h'.raises f) .inr
  · intro name p hp
    obtain ⟨q, hq, hqp⟩ := h'.properties name p hp
    obtain ⟨r, hr, hrq⟩ := h.properties name q hq
    exact ⟨r, hr, hrq.trans hqp⟩

theorem unstated (hstated : d.stated = c.stated) (hmethods : d.methods.map Method.stated = c.methods.map Method.stated)
    (hflags : d.flags = c.flags) (hproperties : d.properties = c.properties) : d.Enriches c := by
  refine ⟨hstated, hmethods ▸ List.prefix_refl _, ?_, ?_, ?_⟩
  · exact fun f hf => hflags ▸ hf
  · exact fun f hf => .inl (hflags ▸ hf)
  · exact fun name p hp => ⟨p, hproperties ▸ hp, .refl p⟩

theorem put (c : Class) {name : String} {p : Property} (h : p.Keeps (c.property name)) :
    ({ c with properties := c.properties.put name p } : Class).Enriches c := by
  refine ⟨rfl, List.prefix_refl _, fun _ => id, fun _ => .inl, fun key q hq => ?_⟩
  dsimp only
  rw [Keyed.get?_put]
  split
  · rename_i hkey
    have hown : c.property name = q := by rw [property, ← hkey, hq, Option.getD_some]
    exact ⟨p, rfl, hown ▸ h⟩
  · exact ⟨q, hq, .refl q⟩

theorem updateOrigin (c : Class) {f : Declaration → Declaration} (hf : ∀ d, (f d).stated = d.stated) (o : Origin) :
    (c.updateOrigin f o).Enriches c := by
  cases o with
  | owner =>
      refine unstated ?_ rfl rfl rfl
      exact congrArg (fun d => { c.stated with toDeclaration := d }) (hf c.toDeclaration)
  | field i =>
      refine unstated ?_ rfl rfl rfl
      refine congrArg (fun fs => { c.stated with fields := fs }) (ClassWork.map_modify (fun g => ?_) c.fields i)
      exact congrArg (fun d => { g with toDeclaration := d }) (hf g.toDeclaration)
  | method i =>
      refine unstated rfl (ClassWork.map_modify (fun m => ?_) c.methods i) rfl rfl
      exact congrArg (fun d => { m with toDeclaration := d }) (hf m.toDeclaration)

theorem raiseProxy (c : Class) : ({ c with flags := c.flags.insert .hasProxy } : Class).Enriches c := by
  refine ⟨rfl, List.prefix_refl _, fun f hf => ?_, fun f hf => ?_, fun _ p h => ⟨p, h, .refl p⟩⟩
  · simp [hf]
  · rw [FlagSet.has_insert, Bool.or_eq_true, decide_eq_true_eq] at hf
    exact hf.symm

theorem bindAccessor {role : AccessorRole} {name : String} {m : MethodLink}
    (h : c.bindAccessor role name m = .ok d) : d.Enriches c := by
  unfold Class.bindAccessor at h
  split at h
  · cases h
  · rename_i p hbind
    obtain rfl := Except.ok.inj h
    exact put c (.bind hbind)

theorem mapProperties (c : Class) {f : Property → Property} (hf : ∀ p, (f p).Keeps p) :
    (c.mapProperties f).Enriches c := by
  refine ⟨rfl, List.prefix_refl _, fun _ => id, fun _ => .inl, fun name p hp => ⟨f p, ?_, hf p⟩⟩
  have hmap : ∀ ps : Keyed Property, Keyed.get? (ps.map fun q => (q.1, f q.2)) name = (ps.get? name).map f := by
    intro ps
    induction ps with
    | nil => rfl
    | cons q ps ih =>
        rw [List.map_cons, Keyed.get?_cons, Keyed.get?_cons, ih]
        split <;> rfl
  exact (hmap c.properties).trans (congrArg _ hp)

theorem withMade (c : Class) (made : List Method) : (c.withMade made).Enriches c := by
  have hinherit : (c.mapProperties (·.inherit c.fields)).Enriches c :=
    mapProperties c fun p => .inherit p c.fields
  have hjoin : (c.withMade made).Enriches (c.mapProperties (·.inherit c.fields)) := by
    refine ⟨rfl, ?_, fun _ => id, fun _ => .inl, fun _ p h => ⟨p, h, .refl p⟩⟩
    rw [stated_methods_withMade, List.map_append]
    exact List.prefix_append _ _
  exact hjoin.trans hinherit

end Class.Enriches

/-! ### Effects -/

namespace ClassWork

variable {w v : ClassWork}

theorem synthesize_enriches {s : Synthesis} {d : MethodDraft} (h : w.synthesize s d = .ok v) :
    v.owner.Enriches w.owner := by
  unfold synthesize at h
  split at h
  · cases h
  · obtain rfl := Except.ok.inj h
    exact .updateOrigin w.owner
      (f := fun o => { o with synthesized := o.synthesized.put s.role (w.owner.synthesize s d).link })
      (fun _ => rfl) s.origin

theorem perform_enriches {e : Effect} (h : w.perform e = .ok v) : v.owner.Enriches w.owner := by
  cases e with
  | annotate o t =>
      obtain rfl := Except.ok.inj h
      exact .updateOrigin w.owner (f := fun d => d.annotate o.kind t) (fun _ => rfl) o
  | note o n =>
      obtain rfl := Except.ok.inj h
      exact .updateOrigin w.owner (f := fun d => d.note n) (fun _ => rfl) o
  | raiseProxy =>
      obtain rfl := Except.ok.inj h
      exact .raiseProxy w.owner
  | synthesize s d => exact synthesize_enriches h
  | claimProperty name i type =>
      obtain rfl := Except.ok.inj h
      exact .put w.owner (.of_eq rfl rfl)
  | bind role property m line =>
      unfold perform at h
      dsimp only at h
      split at h
      · rename_i c hbind
        obtain rfl := Except.ok.inj h
        exact .bindAccessor hbind
      · cases h
  | addToBody text =>
      obtain rfl := Except.ok.inj h
      exact .unstated rfl rfl rfl rfl
  | declareFlag f =>
      obtain rfl := Except.ok.inj h
      exact .unstated rfl rfl rfl rfl
  | attach flag m =>
      obtain rfl := Except.ok.inj h
      exact .unstated rfl rfl rfl rfl
  | warn line message =>
      obtain rfl := Except.ok.inj h
      exact .refl w.owner
  | fail f => cases h

theorem run_enriches (w : ClassWork) (es : List Effect) : (w.run es).1.owner.Enriches w.owner := by
  induction es generalizing w with
  | nil => exact .refl w.owner
  | cons e es ih =>
      unfold run
      cases hstep : w.perform e with
      | ok v => exact (ih v).trans (perform_enriches hstep)
      | error f => exact .refl w.owner

end ClassWork

/-- Deriving a class leaves it alone, or leaves what its plan made of it, or goes on to join what was made. -/
theorem Class.derive_result_cases (x : PlanContext) (c : Class) :
    (c.derive x).result = c ∨ ∃ h w, (ClassWork.run { owner := c } (c.plan x h)).1 = w ∧
      ((c.derive x).result = w.owner ∨ (c.derive x).result = w.owner.withMade w.made ∨
        (c.derive x).result = (w.owner.withMade w.made).mapProperties Property.materialize) := by
  unfold derive
  cases c.choices x with
  | error f => exact .inl rfl
  | ok h =>
      dsimp only
      rcases hrun : ClassWork.run { owner := c } (c.plan x h) with ⟨w, _ | f⟩
      · refine .inr ⟨h, w, by rw [hrun], .inr ?_⟩
        dsimp only
        split
        · exact .inl rfl
        · exact .inr rfl
      · exact .inr ⟨h, w, by rw [hrun], .inl rfl⟩

/-- Deriving a class only adds to it, whether that goes well or not. -/
theorem Class.derive_enriches (x : PlanContext) (c : Class) : (c.derive x).result.Enriches c := by
  rcases c.derive_result_cases x with hsame | ⟨h, w, hrun, hend⟩
  · rw [hsame]
    exact .refl c
  · have hw : w.owner.Enriches c := hrun ▸ ClassWork.run_enriches { owner := c } (c.plan x h)
    have hmade := (Enriches.withMade w.owner w.made).trans hw
    rcases hend with hend | hend | hend
    all_goals rw [hend]
    · exact hw
    · exact hmade
    · exact (Enriches.mapProperties _ .materialize).trans hmade

/-! ### Enums -/

theorem forall₂_trans {α : Type} {R : α → α → Prop} (hR : ∀ {a b c}, R a b → R b c → R a c) {l m n : List α}
    (h : List.Forall₂ R l m) (h' : List.Forall₂ R m n) : List.Forall₂ R l n := by
  induction h generalizing n with
  | nil => exact h'
  | cons hab _ ih =>
      cases h' with
      | cons hbc hmn => exact .cons (hR hab hbc) (ih hmn)

/-- The header `g` declares what the header `h` does, with things added to it. -/
structure Header.Enriches (g h : Header) : Prop where
  path : g.path = h.path
  classes : List.Forall₂ Class.Enriches g.classes h.classes
  enums : g.enums.map Enumeration.stated = h.enums.map Enumeration.stated

theorem Header.Enriches.refl (h : Header) : h.Enriches h :=
  ⟨rfl, List.forall₂_same.mpr fun c _ => .refl c, rfl⟩

theorem Header.Enriches.trans {f g h : Header} (hfg : f.Enriches g) (hgh : g.Enriches h) : f.Enriches h :=
  ⟨hfg.path.trans hgh.path, forall₂_trans .trans hfg.classes hgh.classes, hfg.enums.trans hgh.enums⟩

namespace Program

/-- The program `q` consists of the headers of `p`, with things added to them. -/
def Enriches (q p : Program) : Prop := List.Forall₂ Header.Enriches q.headers p.headers

end Program

end HeaderReflection
