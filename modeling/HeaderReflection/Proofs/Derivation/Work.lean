import HeaderReflection.Derivation.Effect
import Mathlib.Data.List.Basic

/-! # What effects do to a class

A plan is performed effect by effect, on the class and the list of the methods made so far.  Effects add notes
and flags to a class and to its members, and they make methods; what the header states of the members stays.

* Two declarations are stated alike if they differ only in notes, flags that a derivation raises, and methods
  made from them (`Declaration.stated`).
* A method is made under its role in the map of the declaration that it is made from, and no effect touches
  these maps otherwise.  So the maps and the list hold the same methods, each once (`Class.Registers`).
* One effect keeps both, and adds the method that it makes to those made so far (`ClassWork.Sound.perform`).
  A whole run does so by induction (`ClassWork.Sound.run`).

A role that is taken makes an effect fail, which is what keeps the entry under a role from being replaced.
Where a run stops, the work is sound up to there. -/

namespace HeaderReflection

/-! ### What a header states -/

/-- The declaration without notes, without what its attributes make of it, and without the methods that
were made from it. -/
def Declaration.stated (d : Declaration) : Declaration :=
  { d with
    docNotes := []
    entityFlags := {}
    deprecation := none
    forceDocument := none
    documentMembers := true
    synthesized := [] }

/-- What a header states of a field. -/
def Field.stated (f : Field) : Field := { f with toDeclaration := f.toDeclaration.stated }

/-- What a header states of a method. -/
def Method.stated (m : Method) : Method := { m with toDeclaration := m.toDeclaration.stated }

theorem Field.flags_stated (f : Field) : f.stated.flags = f.flags := rfl

theorem Method.flags_stated (m : Method) : m.stated.flags = m.flags := rfl

/-! ### The methods made from a declaration -/

/-- What a synthesized method is made from, and its role there. -/
def Method.key? (m : Method) : Option (Origin × String) := m.synthesis.map fun s => (s.origin, s.role)

theorem Method.key?_eq_of_link_eq {m k : Method} (h : m.link = k.link) : m.key? = k.key? :=
  congrArg (Option.map fun s : Synthesis => (s.origin, s.role)) (congrArg MethodLink.synthesis h)

namespace Class

variable (c : Class)

/-- The methods made from an origin, by role. -/
def madeFrom (o : Origin) : Keyed MethodLink := ((c.origin? o).map (·.synthesized)).getD []

theorem origin?_updateOrigin (f : Declaration → Declaration) (o k : Origin) :
    (c.updateOrigin f o).origin? k = if k = o then (c.origin? o).map f else c.origin? k := by
  cases o with
  | owner =>
      cases k with
      | owner => rfl
      | field j => rfl
      | method j => rfl
  | field i =>
      cases k with
      | owner => rfl
      | field j =>
          by_cases hj : j = i
          · subst hj
            simp [updateOrigin, origin?, Function.comp_def]
          · have hi : ¬i = j := fun e => hj e.symm
            simp [updateOrigin, origin?, hj, hi]
      | method j => rfl
  | method i =>
      cases k with
      | owner => rfl
      | field j => rfl
      | method j =>
          by_cases hj : j = i
          · subst hj
            simp [updateOrigin, origin?, Function.comp_def]
          · have hi : ¬i = j := fun e => hj e.symm
            simp [updateOrigin, origin?, hj, hi]

/-- A change that leaves the map of a declaration alone leaves all maps of the class alone. -/
theorem madeFrom_updateOrigin {f : Declaration → Declaration}
    (hf : ∀ d, (f d).synthesized = d.synthesized) (o k : Origin) :
    (c.updateOrigin f o).madeFrom k = c.madeFrom k := by
  unfold madeFrom
  rw [origin?_updateOrigin]
  split
  · rename_i hk
    subst hk
    simp [Function.comp_def, hf]
  · rfl

theorem madeFrom_put {o : Origin} {role : String} (ho : (c.origin? o).isSome)
    (hrole : role ∉ (c.madeFrom o).keys) (m : MethodLink) (k : Origin) :
    (c.updateOrigin (fun d => { d with synthesized := d.synthesized.put role m }) o).madeFrom k =
      if k = o then c.madeFrom k ++ [(role, m)] else c.madeFrom k := by
  obtain ⟨d, hd⟩ := Option.isSome_iff_exists.mp ho
  have hmade : c.madeFrom o = d.synthesized := by simp [madeFrom, hd]
  rw [hmade] at hrole
  unfold madeFrom
  rw [origin?_updateOrigin]
  split
  · rename_i hk
    subst hk
    simp [hd, Keyed.put_of_not_mem_keys hrole]
  · rfl

/-! ### Registered methods -/

/-- The maps of a class hold the methods of a list: a method stands under its role in the map of what it
is made from and nowhere else, and there is nothing else in the maps. -/
structure Registers (made : List Method) : Prop where
  keys : ∀ o, (c.madeFrom o).keys.Nodup
  once : (made.map Method.key?).Nodup
  entry : ∀ m ∈ made, ∀ o role, (role, m.link) ∈ c.madeFrom o ↔ m.key? = some (o, role)
  value : ∀ o, ∀ p ∈ c.madeFrom o, ∃ m ∈ made, m.link = p.2

variable {c}

theorem Registers.congr {d : Class} {made : List Method} (hc : c.Registers made)
    (h : ∀ o, d.madeFrom o = c.madeFrom o) : d.Registers made := by
  refine ⟨?_, hc.once, ?_, ?_⟩
  · intro o
    rw [h o]
    exact hc.keys o
  · intro m hm o role
    rw [h o]
    exact hc.entry m hm o role
  · intro o
    rw [h o]
    exact hc.value o

/-- One more method is registered by an entry under a role that was free. -/
theorem Registers.concat {d : Class} {made : List Method} (hc : c.Registers made) {m : Method}
    {s : Synthesis} (hs : m.synthesis = some s) (hrole : s.role ∉ (c.madeFrom s.origin).keys)
    (hd : ∀ o, d.madeFrom o =
      if o = s.origin then c.madeFrom o ++ [(s.role, m.link)] else c.madeFrom o) :
    d.Registers (made ++ [m]) := by
  have hkey : m.key? = some (s.origin, s.role) := by
    unfold Method.key?
    rw [hs]
    rfl
  have hmem : ∀ o p, p ∈ d.madeFrom o ↔ p ∈ c.madeFrom o ∨ o = s.origin ∧ p = (s.role, m.link) := by
    intro o p
    rw [hd]
    by_cases ho : o = s.origin
    · simp [ho]
    · simp [ho]
  -- The role was free, so no method has the key already.
  have hfresh : ∀ k ∈ made, k.key? ≠ m.key? := by
    intro k hk heq
    have hentry := (hc.entry k hk s.origin s.role).mpr (heq.trans hkey)
    exact hrole (List.mem_map.mpr ⟨_, hentry, rfl⟩)
  refine ⟨?_, ?_, ?_, ?_⟩
  · intro o
    rw [hd]
    by_cases ho : o = s.origin
    · subst ho
      rw [if_pos rfl]
      unfold Keyed.keys
      rw [List.map_append]
      refine List.nodup_append.mpr ⟨hc.keys s.origin, by simp, ?_⟩
      intro a ha b hb hab
      obtain rfl : b = s.role := by simpa using hb
      exact hrole (hab ▸ ha)
    · rw [if_neg ho]
      exact hc.keys o
  · rw [List.map_append]
    refine List.nodup_append.mpr ⟨hc.once, by simp, ?_⟩
    intro a ha b hb hab
    obtain ⟨k, hk, rfl⟩ := List.mem_map.mp ha
    obtain rfl : b = m.key? := by simpa using hb
    exact hfresh k hk hab
  · intro k hk o role
    rw [hmem]
    rcases List.mem_append.mp hk with hk | hk
    · rw [hc.entry k hk o role, or_iff_left_iff_imp]
      rintro ⟨-, hp⟩
      exact absurd (Method.key?_eq_of_link_eq (Prod.mk.inj hp).2) (hfresh k hk)
    · obtain rfl := List.mem_singleton.mp hk
      rw [hkey]
      constructor
      · rintro (hold | ⟨rfl, hp⟩)
        · obtain ⟨j, hj, hlink⟩ := hc.value o _ hold
          exact absurd (Method.key?_eq_of_link_eq hlink) (hfresh j hj)
        · rw [(Prod.mk.inj hp).1]
      · intro heq
        obtain ⟨rfl, rfl⟩ : s.origin = o ∧ s.role = role := by simpa using heq
        exact Or.inr ⟨rfl, rfl⟩
  · intro o p hp
    rcases (hmem o p).mp hp with hold | ⟨-, rfl⟩
    · obtain ⟨k, hk, hlink⟩ := hc.value o p hold
      exact ⟨k, List.mem_append_left _ hk, hlink⟩
    · exact ⟨m, by simp, rfl⟩

/-- The origin is the class itself or one of its members. -/
def HasOrigin (c : Class) (o : Origin) : Prop := (c.origin? o).isSome

theorem synthesize_congr {d : Class} (h : d.path = c.path) (s : Synthesis) (m : MethodDraft) :
    d.synthesize s m = c.synthesize s m := by
  unfold synthesize
  rw [h]

end Class

/-! ### Runs -/

/-- The method that an effect makes in a class. -/
def Effect.made? (c : Class) : Effect → Option Method
  | .synthesize s d => some (c.synthesize s d)
  | _ => none

/-- A method that an effect makes is made from the class or from one of its members. -/
def Effect.OriginIn (c : Class) : Effect → Prop
  | .synthesize s _ => c.HasOrigin s.origin
  | _ => True

/-! ### Sound work -/

namespace ClassWork

/-- The work is on a class as its header states it, and the methods made so far are registered. -/
structure Sound (c : Class) (w : ClassWork) : Prop where
  path : w.owner.path = c.path
  fields : w.owner.fields.map Field.stated = c.fields.map Field.stated
  methods : w.owner.methods.map Method.stated = c.methods.map Method.stated
  registers : w.owner.Registers w.made

variable {c : Class} {w v : ClassWork}

theorem Sound.hasOrigin (hw : w.Sound c) (o : Origin) : w.owner.HasOrigin o ↔ c.HasOrigin o := by
  have hfields : w.owner.fields.length = c.fields.length := by
    simpa using congrArg List.length hw.fields
  have hmethods : w.owner.methods.length = c.methods.length := by
    simpa using congrArg List.length hw.methods
  cases o with
  | owner => simp [Class.HasOrigin, Class.origin?]
  | field i => simp [Class.HasOrigin, Class.origin?, hfields]
  | method i => simp [Class.HasOrigin, Class.origin?, hmethods]

theorem map_modify {α β : Type} {g : α → β} {f : α → α} (hf : ∀ a, g (f a) = g a) (l : List α)
    (i : Nat) : (l.modify i f).map g = l.map g := by
  induction l generalizing i with
  | nil => simp
  | cons a l ih =>
      cases i with
      | zero => simp [hf]
      | succ i => simp [ih]

theorem Sound.updateOrigin (hw : w.Sound c) {f : Declaration → Declaration}
    (hf : ∀ d, (f d).stated = d.stated) (o : Origin) :
    (w.owner.updateOrigin f o).path = c.path ∧
      (w.owner.updateOrigin f o).fields.map Field.stated = c.fields.map Field.stated ∧
      (w.owner.updateOrigin f o).methods.map Method.stated = c.methods.map Method.stated := by
  cases o with
  | owner => exact ⟨hw.path, hw.fields, hw.methods⟩
  | field i =>
      refine ⟨hw.path, ?_, hw.methods⟩
      rw [← hw.fields]
      refine map_modify (fun g => ?_) w.owner.fields i
      exact congrArg (fun d => ({ g with toDeclaration := d } : Field)) (hf g.toDeclaration)
  | method i =>
      refine ⟨hw.path, hw.fields, ?_⟩
      rw [← hw.methods]
      refine map_modify (fun m => ?_) w.owner.methods i
      exact congrArg (fun d => ({ m with toDeclaration := d } : Method)) (hf m.toDeclaration)

theorem Sound.mark (hw : w.Sound c) {f : Declaration → Declaration} (hf : ∀ d, (f d).stated = d.stated)
    (hmade : ∀ d, (f d).synthesized = d.synthesized) (o : Origin) :
    ({ w with owner := w.owner.updateOrigin f o } : ClassWork).Sound c := by
  obtain ⟨hpath, hfields, hmethods⟩ := hw.updateOrigin hf o
  exact ⟨hpath, hfields, hmethods, hw.registers.congr (w.owner.madeFrom_updateOrigin hmade o)⟩

/-- Making a method registers it. -/
theorem Sound.synthesize (hw : w.Sound c) {s : Synthesis} {d : MethodDraft} (ho : c.HasOrigin s.origin)
    (h : w.synthesize s d = .ok v) : v.Sound c ∧ v.made = w.made ++ [c.synthesize s d] := by
  unfold ClassWork.synthesize at h
  cases hfree : w.owner.synthesized? s.origin s.role with
  | some m => simp [hfree] at h
  | none =>
      simp only [hfree, Except.ok.injEq] at h
      subst h
      have hsame := Class.synthesize_congr hw.path s d
      have hrole : s.role ∉ (w.owner.madeFrom s.origin).keys := by
        rw [← Keyed.get?_eq_none_iff]
        unfold Class.synthesized? at hfree
        unfold Class.madeFrom
        cases horigin : w.owner.origin? s.origin with
        | none => rfl
        | some k => simpa [horigin] using hfree
      have hput := w.owner.madeFrom_put ((hw.hasOrigin s.origin).mpr ho) hrole
        (w.owner.synthesize s d).link
      obtain ⟨hpath, hfields, hmethods⟩ := hw.updateOrigin
        (f := fun o => { o with synthesized := o.synthesized.put s.role (w.owner.synthesize s d).link })
        (fun _ => rfl) s.origin
      refine ⟨⟨hpath, hfields, hmethods, ?_⟩, by rw [hsame]⟩
      exact hw.registers.concat (s := s) rfl hrole hput

theorem Sound.elsewhere (hw : w.Sound c)
    (htype : v.owner.toTypeDeclaration = w.owner.toTypeDeclaration)
    (hfields : v.owner.fields = w.owner.fields) (hmethods : v.owner.methods = w.owner.methods)
    (hmade : v.made = w.made) : v.Sound c := by
  have horigin : ∀ o, v.owner.madeFrom o = w.owner.madeFrom o := by
    intro o
    unfold Class.madeFrom Class.origin?
    rw [htype, hfields, hmethods]
  refine ⟨?_, ?_, ?_, ?_⟩
  · rw [htype, hw.path]
  · rw [hfields, hw.fields]
  · rw [hmethods, hw.methods]
  · rw [hmade]
    exact hw.registers.congr horigin

/-- An effect keeps the work sound and adds the method that it makes to those made so far. -/
theorem Sound.perform (hw : w.Sound c) {e : Effect} (he : e.OriginIn c)
    (h : w.perform e = .ok v) : v.Sound c ∧ v.made = w.made ++ (e.made? c).toList := by
  have hnone : w.made = w.made ++ (none : Option Method).toList := (List.append_nil _).symm
  cases e with
  | annotate o t =>
      obtain rfl := Except.ok.inj h
      exact ⟨hw.mark (f := fun d => d.annotate o.kind t) (fun _ => rfl) (fun _ => rfl) o, hnone⟩
  | note o n =>
      obtain rfl := Except.ok.inj h
      exact ⟨hw.mark (f := fun d => d.note n) (fun _ => rfl) (fun _ => rfl) o, hnone⟩
  | raiseProxy =>
      obtain rfl := Except.ok.inj h
      exact ⟨hw.elsewhere rfl rfl rfl rfl, hnone⟩
  | synthesize s d => exact hw.synthesize he h
  | claimProperty name i type =>
      obtain rfl := Except.ok.inj h
      exact ⟨hw.elsewhere rfl rfl rfl rfl, hnone⟩
  | bind role property m line =>
      unfold ClassWork.perform Class.bindAccessor at h
      cases hbind : (w.owner.property property).bind role m with
      | error f => simp [hbind] at h
      | ok p =>
          simp only [hbind, Except.ok.injEq] at h
          subst h
          exact ⟨hw.elsewhere rfl rfl rfl rfl, hnone⟩
  | addToBody text =>
      obtain rfl := Except.ok.inj h
      exact ⟨hw.elsewhere rfl rfl rfl rfl, hnone⟩
  | declareFlag f =>
      obtain rfl := Except.ok.inj h
      exact ⟨hw.elsewhere rfl rfl rfl rfl, hnone⟩
  | attach flag m =>
      obtain rfl := Except.ok.inj h
      exact ⟨hw.elsewhere rfl rfl rfl rfl, hnone⟩
  | warn line message =>
      obtain rfl := Except.ok.inj h
      exact ⟨hw.elsewhere rfl rfl rfl rfl, hnone⟩
  | fail f => cases h

/-- A run that performs all effects keeps the work sound, and makes what they make in their order. -/
theorem Sound.run (hw : w.Sound c) {es : List Effect} (hes : ∀ e ∈ es, e.OriginIn c)
    (h : w.run es = (v, none)) : v.Sound c ∧ v.made = w.made ++ es.filterMap (Effect.made? c) := by
  induction es generalizing w with
  | nil =>
      obtain rfl : w = v := (Prod.mk.inj h).1
      exact ⟨hw, by simp⟩
  | cons e es ih =>
      obtain ⟨he, hes⟩ := List.forall_mem_cons.mp hes
      unfold ClassWork.run at h
      cases hstep : w.perform e with
      | error f => simp [hstep] at h
      | ok u =>
          simp only [hstep] at h
          obtain ⟨hu, hmade⟩ := hw.perform he hstep
          obtain ⟨hv, hrest⟩ := ih hu hes h
          refine ⟨hv, ?_⟩
          rw [hrest, hmade, List.append_assoc, List.filterMap_cons]
          cases e.made? c with
          | none => rfl
          | some m => rfl

theorem ne_fail_of_run {es : List Effect} (h : w.run es = (v, none)) (f : Fault) : .fail f ∉ es := by
  induction es generalizing w with
  | nil => exact List.not_mem_nil
  | cons e es ih =>
      unfold ClassWork.run at h
      cases hstep : w.perform e with
      | error g => simp [hstep] at h
      | ok u =>
          simp only [hstep] at h
          rw [List.mem_cons, not_or]
          refine ⟨?_, ih h⟩
          rintro rfl
          cases hstep

end ClassWork

end HeaderReflection
