import HeaderReflection.Proofs.Derivation.Enrichment

/-! # Deriving a class again

A class may be derived more than once: a session derives all its classes whenever it is asked to, under the
settings that it has then.  What a run makes is registered beside what earlier runs made, whether or not those
ended well and their methods joined the class.

* The methods made before only stand in front of those made now (`ClassWork.run_after`), so a run on a class
  that was derived before is understood by one on a class for which nothing was made.
* The role of a registered method is taken, so no run makes a second method from one declaration in one role.
* A run may end without the methods that it made joining the class.  They stay registered, so the list of the
  class holds only some of the methods in its maps (`Class.Tracks.joined`).

So however a class got to where it is, each artificial method in its list is registered once, for the
declaration that it was made from (`Class.Tracks.existsUnique_role`), and no two of them have the same key
(`Class.Tracks.nodup_key`). -/

namespace HeaderReflection

/-! ### Work on a class for which methods were made before -/

namespace ClassWork

variable {c : Class} {w : ClassWork}

/-- The work with methods made before it. -/
def after (before : List Method) (w : ClassWork) : ClassWork := { w with made := before ++ w.made }

theorem perform_after (before : List Method) (w : ClassWork) (e : Effect) :
    (w.after before).perform e = (w.perform e).map (after before) := by
  cases e with
  | synthesize s d =>
      unfold perform synthesize after
      dsimp only
      cases w.owner.synthesized? s.origin s.role with
      | some m => rfl
      | none => simp [Except.map]
  | bind role property m line =>
      unfold perform after
      dsimp only
      cases w.owner.bindAccessor role property m with
      | ok d => rfl
      | error f => rfl
  | annotate | note | raiseProxy | claimProperty | addToBody | declareFlag | attach | warn | fail => rfl

/-- Methods made before a run stay in front of what it makes. -/
theorem run_after (before : List Method) (w : ClassWork) (es : List Effect) :
    (w.after before).run es = ((w.run es).1.after before, (w.run es).2) := by
  induction es generalizing w with
  | nil => rfl
  | cons e es ih =>
      unfold run
      rw [perform_after]
      cases w.perform e with
      | ok v => exact ih v
      | error f => rfl

theorem Sound.upTo (hw : w.Sound c) {es : List Effect} (hes : ∀ e ∈ es, e.OriginIn c) :
    (w.run es).1.Sound c ∧
      ∃ more, (w.run es).1.made = w.made ++ more ∧ more ⊆ es.filterMap (Effect.made? c) := by
  induction es generalizing w with
  | nil => exact ⟨hw, [], (List.append_nil _).symm, List.nil_subset _⟩
  | cons e es ih =>
      obtain ⟨he, hes⟩ := List.forall_mem_cons.mp hes
      unfold ClassWork.run
      cases hstep : w.perform e with
      | error f => exact ⟨hw, [], (List.append_nil _).symm, List.nil_subset _⟩
      | ok v =>
          obtain ⟨hv, hmade⟩ := hw.perform he hstep
          obtain ⟨hend, more, hmore, hsub⟩ := ih hv hes
          refine ⟨hend, (e.made? c).toList ++ more, by rw [hmore, hmade, List.append_assoc], ?_⟩
          refine List.append_subset.mpr ⟨fun m hm => ?_, fun m hm => ?_⟩
          · exact List.mem_filterMap.mpr ⟨e, List.mem_cons_self, Option.mem_toList.mp hm⟩
          · obtain ⟨g, hg, hm⟩ := List.mem_filterMap.mp (hsub hm)
            exact List.mem_filterMap.mpr ⟨g, List.mem_cons_of_mem e hg, hm⟩

end ClassWork

namespace Class

variable {x : PlanContext} {c d : Class} {all more : List Method}

/-- What a plan makes is made from the class or from one of its members. -/
theorem exists_synthesize_of_mem_plan (hc : c.Valid) {h : Choices} {m : Method}
    (hm : m ∈ (c.plan x h).filterMap (Effect.made? c)) :
    ∃ s k, m = c.synthesize s k ∧ c.HasOrigin s.origin := by
  obtain ⟨e, he, hmade⟩ := List.mem_filterMap.mp hm
  have horigin := (planned_of_mem_plan hc he).originIn
  cases e with
  | synthesize s k => exact ⟨s, k, (Option.some.inj hmade).symm, horigin⟩
  | annotate | note | raiseProxy | claimProperty | bind | addToBody | declareFlag | attach | warn | fail =>
      cases hmade

theorem Enriches.hasOrigin (h : d.Enriches c) {o : Origin} (ho : c.HasOrigin o) : d.HasOrigin o := by
  have hfields : d.fields.length = c.fields.length := by
    have hstated : d.fields.map Field.stated = c.fields.map Field.stated := congrArg Class.fields h.stated
    simpa using congrArg List.length hstated
  have hmethods : c.methods.length ≤ d.methods.length := by simpa using h.methods.length_le
  cases o with
  | owner => rfl
  | field i =>
      simp only [HasOrigin, origin?, Option.isSome_map, isSome_getElem?] at ho ⊢
      omega
  | method i =>
      simp only [HasOrigin, origin?, Option.isSome_map, isSome_getElem?] at ho ⊢
      omega

theorem links_of_stated {ms ks : List Method} (h : ms.map Method.stated = ks.map Method.stated) :
    (ms.filter (·.flags.has .artificial)).map Method.link = (ks.filter (·.flags.has .artificial)).map Method.link := by
  have hstated : ∀ l : List Method, (l.filter (·.flags.has .artificial)).map Method.link =
      ((l.map Method.stated).filter (·.flags.has .artificial)).map Method.link := by
    intro l
    rw [List.filter_map, List.map_map]
    rfl
  rw [hstated ms, h, ← hstated ks]

/-! ### The methods of all runs -/

/-- The methods in `all` were made from the class and its members in the course of time; all of them are
registered, and the artificial methods in the list of the class are some of them. -/
structure Tracks (c : Class) (all : List Method) : Prop where
  valid : c.Valid
  registers : c.Registers all
  origin : ∀ m ∈ all, ∃ s, m.synthesis = some s ∧ c.HasOrigin s.origin
  joined : (c.artificialMethods.map Method.link).Sublist (all.map Method.link)

namespace Tracks

theorem ofRead {path : SourcePath} (hc : c.ReadFrom path) (hdeclared : c.IsDeclared) : c.Tracks [] := by
  refine ⟨hc.valid, hdeclared.registers, fun m hm => absurd hm List.not_mem_nil, ?_⟩
  unfold artificialMethods
  rw [hdeclared.filter_artificial rfl]

theorem extend (h : c.Tracks all) {joined : List Method} (hd : d.Enriches c)
    (hmore : ∀ m ∈ more, ∃ s k, m = c.synthesize s k ∧ c.HasOrigin s.origin) (hjoined : joined.Sublist more)
    (hmethods : d.methods.map Method.stated = (c.methods ++ joined).map Method.stated)
    (hregisters : d.Registers (all ++ more)) : d.Tracks (all ++ more) := by
  refine ⟨⟨?_, ?_, ?_⟩, hregisters, ?_, ?_⟩
  · have hown : d.attributes = c.attributes := congrArg (·.attributes) hd.stated
    exact hown ▸ h.valid.own
  · intro f hf
    have hfields : d.fields.map Field.stated = c.fields.map Field.stated := congrArg Class.fields hd.stated
    obtain ⟨g, hg, hstated⟩ := List.mem_map.mp (hfields ▸ List.mem_map_of_mem hf)
    have hbag : g.stated.attributes = f.stated.attributes := congrArg (·.attributes) hstated
    exact hbag ▸ h.valid.fields g hg
  · intro m hm
    obtain ⟨k, hk, hstated⟩ := List.mem_map.mp (hmethods ▸ List.mem_map_of_mem hm)
    have hbag : k.stated.attributes = m.stated.attributes := congrArg (·.attributes) hstated
    change k.attributes = m.attributes at hbag
    rw [← hbag]
    rcases List.mem_append.mp hk with hk | hk
    · exact h.valid.methods k hk
    · obtain ⟨s, draft, rfl, -⟩ := hmore k (hjoined.subset hk)
      exact fun p hp => absurd hp List.not_mem_nil
  · intro m hm
    rcases List.mem_append.mp hm with hm | hm
    · obtain ⟨s, hs, horigin⟩ := h.origin m hm
      exact ⟨s, hs, hd.hasOrigin horigin⟩
    · obtain ⟨s, draft, rfl, horigin⟩ := hmore m hm
      exact ⟨s, rfl, hd.hasOrigin horigin⟩
  · unfold artificialMethods
    rw [links_of_stated hmethods, List.filter_append, List.map_append, List.map_append]
    exact h.joined.append (((List.filter_sublist).trans hjoined).map Method.link)

theorem derive (h : c.Tracks all) (x : PlanContext) : ∃ more, (c.derive x).result.Tracks (all ++ more) := by
  have henriches := c.derive_enriches x
  rcases c.derive_result_cases x with hsame | ⟨k, w, hrun, hend⟩
  · exact ⟨[], by rwa [hsame, List.append_nil]⟩
  · -- The run goes on from the methods of the runs before it.
    have hstart : (ClassWork.after all { owner := c }).Sound c := by
      refine ⟨rfl, rfl, rfl, ?_⟩
      show c.Registers (all ++ [])
      rw [List.append_nil]
      exact h.registers
    obtain ⟨hsound, more, hmade, hsub⟩ :=
      hstart.upTo fun e he => (planned_of_mem_plan (x := x) (h := k) h.valid he).originIn
    rw [ClassWork.run_after, hrun] at hsound hmade
    have hall : all ++ w.made = (all ++ []) ++ more := hmade
    rw [List.append_nil] at hall
    obtain rfl : w.made = more := List.append_cancel_left hall
    have hmore : ∀ m ∈ w.made, ∃ s d, m = c.synthesize s d ∧ c.HasOrigin s.origin :=
      fun m hm => exists_synthesize_of_mem_plan h.valid (hsub hm)
    have hunmade : ∀ m ∈ w.made, m.synthesized = [] := by
      intro m hm
      obtain ⟨s, d, rfl, -⟩ := hmore m hm
      rfl
    have hdeclared : w.owner.methods.map Method.stated = c.methods.map Method.stated := hsound.methods
    have hjoined : (w.owner.withMade w.made).methods.map Method.stated = (c.methods ++ w.made).map Method.stated := by
      rw [stated_methods_withMade, List.map_append, hdeclared, List.map_append]
    have hregisters : (w.owner.withMade w.made).Registers (all ++ w.made) :=
      hsound.registers.congr fun o => madeFrom_withMade hunmade o
    refine ⟨w.made, ?_⟩
    rcases hend with hend | hend | hend
    all_goals rw [hend] at henriches ⊢
    · refine h.extend henriches hmore (List.nil_sublist _) ?_ hsound.registers
      rw [List.append_nil]
      exact hdeclared
    · exact h.extend henriches hmore (List.Sublist.refl _) hjoined hregisters
    · exact h.extend henriches hmore (List.Sublist.refl _) hjoined (hregisters.congr fun o => rfl)

theorem nodup_key (h : c.Tracks all) : (c.artificialMethods.map Method.key?).Nodup := by
  have hkey : ∀ ms : List Method, ms.map Method.key? =
      (ms.map Method.link).map fun l => l.synthesis.map fun s => (s.origin, s.role) := by
    intro ms
    rw [List.map_map]
    rfl
  rw [hkey]
  exact (hkey all ▸ h.registers.once).sublist (h.joined.map _)

/-- An artificial method was made from a declaration of the class, in whose map it stands once. -/
theorem existsUnique_role (h : c.Tracks all) {m : Method} (hm : m ∈ c.artificialMethods) :
    ∃ s, m.synthesis = some s ∧ c.HasOrigin s.origin ∧ ∃! role, (c.madeFrom s.origin).get? role = some m.link := by
  obtain ⟨k, hk, hlink⟩ := List.mem_map.mp (h.joined.subset (List.mem_map_of_mem hm))
  obtain ⟨s, hs, horigin⟩ := h.origin k hk
  have hkey : k.key? = some (s.origin, s.role) := by rw [Method.key?, hs, Option.map_some]
  refine ⟨s, ?_, horigin, s.role, ?_, fun role hrole => ?_⟩
  · rw [← hs]
    exact (congrArg MethodLink.synthesis hlink).symm
  · have hentry := (h.registers.entry k hk s.origin s.role).mpr hkey
    exact hlink ▸ Keyed.get?_eq_some_of_mem (h.registers.keys s.origin) hentry
  · have hentry := Keyed.mem_of_get?_eq_some hrole
    rw [← hlink, h.registers.entry k hk, hkey] at hentry
    exact (Prod.mk.inj (Option.some.inj hentry)).2.symm

end Tracks

end Class

end HeaderReflection
