import HeaderReflection.Proofs.Derivation.FieldMethods
import HeaderReflection.Proofs.Source.Characters
import HeaderReflection.Proofs.Source.Renumber

/-! # Properties of fields

A field that is to be seen as a property claims the property of its clean name, gives it a type unless it has
one, and binds its accessors to the sides of the property.

* What an effect does to the property of a name is told by that property alone (`Effect.propertyAfter?`), and
  effects that do not touch the name leave it.  The same goes for lists of effects, so a run can be cut into
  what is planned for the single fields (`Class.propertyAfter?_fields`).
* What a field plans either leaves a property alone or claims it (`Class.propertyAfter?_fieldPlan`,
  `Property.ClaimedBy`).
* A side is bound once, so a property has at most two fields, and two of them only if one has just a getter
  and the other just a setter (`Class.cases_of_claimedByAll`).
* Such a property stands for the field that comes last, but it has the type of the field that comes first, and
  each field's accessor (`Class.derive_fieldProperties`).  The property of a field that shares its clean name
  with no other has the type and the accessors of the field.

Properties of methods are there before those of fields, and have no type yet (`Property.IsBare`). -/

namespace HeaderReflection

open Checked

/-! ### What claims a property -/

/-- Whether a field has an accessor of its own for a side. -/
def Field.hasSide (f : Field) : AccessorRole → Bool
  | .getter => !f.flags.has .noGetter
  | .setter => !f.flags.has .noSetter

/-- The field is to be seen as a property. -/
structure Field.ClaimsProperty (f : Field) (x : PlanContext) : Prop where
  visible : f.flags.has .declaredPrivate = true ∨ x.settings.propertiesForPublicFields = true
  accessible : f.flags.has .noGetter = false ∨ f.flags.has .noSetter = false
  wanted : f.attribute? .propertyName ≠ some (.bool false)

theorem Field.ClaimsProperty.exists_hasSide {f : Field} {x : PlanContext} (h : f.ClaimsProperty x) :
    ∃ role, f.hasSide role = true := by
  rcases h.accessible with h | h
  · exact ⟨.getter, by simp [Field.hasSide, h]⟩
  · exact ⟨.setter, by simp [Field.hasSide, h]⟩

theorem Class.hasProperty_iff {x : PlanContext} {f : Field} :
    hasProperty x f ((f.attribute? .propertyName).bind Value.bool?) = true ↔ f.ClaimsProperty x := by
  have hwanted : ((f.attribute? .propertyName).bind Value.bool? != some false) = true ↔
      f.attribute? .propertyName ≠ some (.bool false) := by
    rw [bne_iff_ne, ne_eq, ne_eq, not_iff_not]
    cases f.attribute? .propertyName with
    | none => simp
    | some v => cases v <;> simp [Value.bool?]
  unfold hasProperty
  rw [Bool.and_eq_true, Bool.and_eq_true, hwanted]
  constructor
  · rintro ⟨⟨hvisible, haccessible⟩, hwanted⟩
    refine ⟨by simpa using hvisible, ?_, hwanted⟩
    cases hgetter : f.flags.has .noGetter with
    | false => exact .inl rfl
    | true => exact .inr (by simpa [hgetter] using haccessible)
  · rintro ⟨hvisible, haccessible, hwanted⟩
    refine ⟨⟨by simpa using hvisible, ?_⟩, hwanted⟩
    rcases haccessible with h | h <;> simp [h]

instance (f : Field) (x : PlanContext) : Decidable (f.ClaimsProperty x) :=
  decidable_of_iff _ Class.hasProperty_iff

/-! ### Effects on a property -/

namespace Effect

/-- The effect concerns the property of a name. -/
def touches (name : String) : Effect → Bool
  | .claimProperty key _ _ => key = name
  | .bind _ key _ _ => key = name
  | _ => false

/-- The property of a name after an effect, unless the effect binds a side that is taken. -/
def propertyAfter? (c : Class) (name : String) (p : Option Property) : Effect → Option (Option Property)
  | .claimProperty key i type =>
    let q := p.getD (c.newProperty name)
    if key = name then some (some { q with source := some i, type := if q.type.isEmpty then type else q.type })
    else some p
  | .bind role key m _ =>
    if key = name then ((p.getD (c.newProperty name)).bind role m).toOption.map some else some p
  | _ => some p

theorem propertyAfter?_untouched {c : Class} {name : String} {e : Effect} (h : e.touches name = false)
    (p : Option Property) : e.propertyAfter? c name p = some p := by
  cases e with
  | claimProperty | bind => exact if_neg (of_decide_eq_false h)
  | annotate | note | raiseProxy | synthesize | addToBody | declareFlag | attach | warn | fail => rfl

end Effect

/-- The property of a name after effects in their order. -/
def propertyAfter? (c : Class) (name : String) (p : Option Property) (es : List Effect) : Option (Option Property) :=
  es.foldlM (Effect.propertyAfter? c name) p

theorem propertyAfter?_append (c : Class) (name : String) (p : Option Property) (es fs : List Effect) :
    propertyAfter? c name p (es ++ fs) = (propertyAfter? c name p es).bind fun q => propertyAfter? c name q fs :=
  List.foldlM_append

theorem propertyAfter?_singleton (c : Class) (name : String) (p : Option Property) (e : Effect) :
    propertyAfter? c name p [e] = e.propertyAfter? c name p := by
  show (e.propertyAfter? c name p).bind some = _
  cases e.propertyAfter? c name p with
  | none => rfl
  | some q => rfl

theorem propertyAfter?_untouched {c : Class} {name : String} {es : List Effect}
    (h : ∀ e ∈ es, e.touches name = false) (p : Option Property) : propertyAfter? c name p es = some p := by
  induction es with
  | nil => rfl
  | cons e es ih =>
      obtain ⟨he, hes⟩ := List.forall_mem_cons.mp h
      show (e.propertyAfter? c name p).bind _ = _
      rw [Effect.propertyAfter?_untouched he]
      exact ih hes

namespace ClassWork

variable {w v : ClassWork}

theorem property_perform {e : Effect} (h : w.perform e = .ok v) :
    (v.owner.path = w.owner.path ∧ v.owner.line = w.owner.line) ∧
      ∀ name, e.propertyAfter? w.owner name (w.owner.properties.get? name) = some (v.owner.properties.get? name) := by
  have hupdate : ∀ (f : Declaration → Declaration) o, (∀ d, (f d).line = d.line) →
      (w.owner.updateOrigin f o).path = w.owner.path ∧ (w.owner.updateOrigin f o).line = w.owner.line := by
    intro f o hf
    cases o with
    | owner => exact ⟨rfl, hf w.owner.toDeclaration⟩
    | field i | method i => exact ⟨rfl, rfl⟩
  have hget : ∀ (f : Declaration → Declaration) o name,
      some (w.owner.properties.get? name) = some ((w.owner.updateOrigin f o).properties.get? name) := by
    intro f o name
    cases o with
    | owner | field i | method i => rfl
  cases e with
  | annotate o t =>
      obtain rfl := Except.ok.inj h
      exact ⟨hupdate _ o fun _ => rfl, fun name => hget _ o name⟩
  | note o n =>
      obtain rfl := Except.ok.inj h
      exact ⟨hupdate _ o fun _ => rfl, fun name => hget _ o name⟩
  | synthesize s d =>
      change w.synthesize s d = .ok v at h
      unfold ClassWork.synthesize at h
      split at h
      · cases h
      · obtain rfl := Except.ok.inj h
        exact ⟨hupdate _ s.origin fun _ => rfl, fun name => hget _ s.origin name⟩
  | claimProperty key i type =>
      obtain rfl := Except.ok.inj h
      refine ⟨⟨rfl, rfl⟩, fun name => ?_⟩
      show (if key = name then _ else _) = some ((w.owner.properties.put key _).get? name)
      rw [Keyed.get?_put]
      by_cases hkey : key = name
      · subst hkey
        rw [if_pos rfl, if_pos rfl]
        rfl
      · rw [if_neg hkey, if_neg (Ne.symm hkey)]
  | bind role key m line =>
      unfold perform Class.bindAccessor at h
      dsimp only at h
      cases hbind : (w.owner.property key).bind role m with
      | error f => simp [hbind] at h
      | ok p =>
          simp only [hbind, Except.ok.injEq] at h
          subst h
          refine ⟨⟨rfl, rfl⟩, fun name => ?_⟩
          show (if key = name then _ else _) = some ((w.owner.properties.put key p).get? name)
          rw [Keyed.get?_put]
          by_cases hkey : key = name
          · subst hkey
            rw [if_pos rfl, if_pos rfl]
            exact congrArg (fun q => q.toOption.map some) hbind
          · rw [if_neg hkey, if_neg (Ne.symm hkey)]
  | raiseProxy | addToBody | declareFlag | attach | warn =>
      obtain rfl := Except.ok.inj h
      exact ⟨⟨rfl, rfl⟩, fun _ => rfl⟩
  | fail f => cases h

/-- A run that performs all effects leaves of each property what they make of it. -/
theorem property_run {es : List Effect} (h : w.run es = (v, none)) (name : String) :
    propertyAfter? w.owner name (w.owner.properties.get? name) es = some (v.owner.properties.get? name) := by
  induction es generalizing w with
  | nil =>
      obtain rfl : w = v := (Prod.mk.inj h).1
      rfl
  | cons e es ih =>
      unfold run at h
      cases hstep : w.perform e with
      | error f => simp [hstep] at h
      | ok u =>
          simp only [hstep] at h
          obtain ⟨⟨hpath, hline⟩, hproperty⟩ := property_perform hstep
          have hnew : Effect.propertyAfter? u.owner name = Effect.propertyAfter? w.owner name := by
            funext p k
            cases k <;> simp [Effect.propertyAfter?, Class.newProperty, hpath, hline]
          show (e.propertyAfter? w.owner name _).bind _ = _
          rw [hproperty name, ← ih h, Option.bind_some]
          unfold propertyAfter?
          rw [hnew]

end ClassWork

/-! ### A field of a property -/

namespace Class

variable (x : PlanContext) (c : Class) (i : Nat) (f : Field)

/-- The accessor of a field for a side. -/
def accessorMethod : AccessorRole → Method
  | .getter => getterMethod x c i f
  | .setter => setterMethod x c i f f.onChange

/-- A property with the accessor of a field for a side, if the field has one, unless the side is taken. -/
def bindSide (role : AccessorRole) (p : Property) : Option Property :=
  if f.hasSide role then (p.bind role (accessorMethod x c i f role).link).toOption else some p

/-- A property after a field has claimed it. -/
def claimedBy (p : Property) : Option Property :=
  (bindSide x c i f .getter
    { p with source := some i, type := if p.type.isEmpty then f.type else p.type }).bind (bindSide x c i f .setter)

end Class

/-- The property is what a field makes of the property `p`: the sides that the field needs were free and are its own,
and the other sides are as before. -/
structure Property.ClaimedBy (q : Property) (x : PlanContext) (c : Class) (i : Nat) (f : Field) (p : Property) :
    Prop where
  source : q.source = some i
  type : q.type = if p.type.isEmpty then f.type else p.type
  free : ∀ role, f.hasSide role = true → p.accessor role = none
  bound : ∀ role, f.hasSide role = true → q.accessor role = some (c.accessorMethod x i f role).link
  kept : ∀ role, f.hasSide role = false → q.accessor role = p.accessor role

namespace Class

variable {x : PlanContext} {c : Class} {i : Nat} {f : Field}

theorem of_bindSide {p q : Property} {role : AccessorRole} (h : bindSide x c i f role p = some q) :
    (q.source = p.source ∧ q.type = p.type ∧ ∀ s, s ≠ role → q.accessor s = p.accessor s) ∧
      (f.hasSide role = true →
        p.accessor role = none ∧ q.accessor role = some (accessorMethod x c i f role).link) ∧
      (f.hasSide role = false → q.accessor role = p.accessor role) := by
  unfold bindSide at h
  split at h
  · rename_i hside
    unfold Property.bind at h
    cases hfree : p.accessor role with
    | some taken =>
        rw [hfree] at h
        cases h
    | none =>
        rw [hfree] at h
        obtain rfl := Option.some.inj h
        refine ⟨⟨?_, ?_, fun s hs => ?_⟩, fun _ => ⟨rfl, ?_⟩, fun hno => absurd hside (Bool.eq_false_iff.mp hno)⟩
        · cases role <;> rfl
        · cases role <;> rfl
        · rw [Property.accessor_withAccessor, if_neg hs]
        · rw [Property.accessor_withAccessor, if_pos rfl]
  · rename_i hside
    obtain rfl := Option.some.inj h
    exact ⟨⟨rfl, rfl, fun _ _ => rfl⟩, fun hyes => absurd hyes hside, fun _ => rfl⟩

theorem of_claimedBy {p q : Property} (h : claimedBy x c i f p = some q) : q.ClaimedBy x c i f p := by
  obtain ⟨r, hgetter, hsetter⟩ := Option.bind_eq_some_iff.mp h
  obtain ⟨⟨hsource, htype, hother⟩, hbound, hkept⟩ := of_bindSide hgetter
  obtain ⟨⟨hsource', htype', hother'⟩, hbound', hkept'⟩ := of_bindSide hsetter
  have hleft : r.accessor .setter = p.accessor .setter := hother .setter nofun
  have hright : q.accessor .getter = r.accessor .getter := hother' .getter nofun
  refine ⟨hsource'.trans hsource, htype'.trans htype, fun role hrole => ?_, fun role hrole => ?_, fun role hrole => ?_⟩
  · cases role with
    | getter => exact (hbound hrole).1
    | setter => exact hleft.symm.trans (hbound' hrole).1
  · cases role with
    | getter => exact hright.trans (hbound hrole).2
    | setter => exact (hbound' hrole).2
  · cases role with
    | getter => exact hright.trans (hkept hrole)
    | setter => exact (hkept' hrole).trans hleft

/-! ### The plan of a field -/

variable (x c i f)

theorem untouched_accessorPlan (role : AccessorRole) {isProperty : Bool} {name : String}
    (h : isProperty = true → f.cleanName ≠ name) (d : MethodDraft) (notes : List DocNote) :
    ∀ e ∈ accessorPlan c i f role isProperty d notes, e.touches name = false := by
  unfold accessorPlan
  refine List.forall_mem_append.mpr ⟨List.forall_mem_append.mpr ⟨?_, ?_⟩, ?_⟩
  · exact List.forall_mem_singleton.mpr rfl
  · exact List.forall_mem_map.mpr fun _ _ => rfl
  · split
    · exact List.forall_mem_singleton.mpr (decide_eq_false (h ‹_›))
    · exact List.forall_mem_nil _

theorem propertyAfter?_side {role : AccessorRole} {absent : Bool} (habsent : f.hasSide role = !absent)
    {d : MethodDraft} (hd : c.synthesize ⟨.field i, role.label, f.line⟩ d = accessorMethod x c i f role)
    (notes : List DocNote) (p : Property) :
    propertyAfter? c f.cleanName (some p) (if absent then [] else accessorPlan c i f role true d notes) =
      (bindSide x c i f role p).map some := by
  unfold bindSide
  rw [habsent]
  cases absent with
  | true => rfl
  | false =>
      have hmade : ∀ e ∈ accessorPlan c i f role false d notes, e.touches f.cleanName = false :=
        untouched_accessorPlan c i f role (fun h => absurd h Bool.false_ne_true) d notes
      have hplan : accessorPlan c i f role true d notes = accessorPlan c i f role false d notes ++
          [Effect.bind role f.cleanName (accessorMethod x c i f role).link f.line] := by
        rw [← hd]
        simp [accessorPlan]
      rw [if_neg Bool.false_ne_true, hplan, propertyAfter?_append, propertyAfter?_untouched hmade, Option.bind_some,
        propertyAfter?_singleton]
      exact if_pos rfl

theorem touches_writing {n : Int} {e : Effect} {name : String} (he : e.touches name = false) :
    (writing n e).touches name = false := by
  rcases writing_eq_or n e with h | h
  · rw [h, he]
  · rw [h]
    rfl

theorem untouched_flagFieldPlan (onChange name : String) (u : FlagUse) :
    ∀ e ∈ flagFieldPlan x c i f onChange u, e.touches name = false := by
  have heach : ∀ accessors : Enumerator → List FlagAccessor, ∀ y,
      ∀ e ∈ flagAccessorPlan c i f u.enumeration onChange y (accessors y), e.touches name = false := by
    intro accessors y e he
    obtain ⟨a, -, he⟩ := List.mem_flatMap.mp he
    rcases List.mem_cons.mp he with rfl | he
    · rfl
    · rw [List.mem_singleton.mp he]
      rfl
  unfold flagFieldPlan
  refine List.forall_mem_append.mpr ⟨List.forall_mem_append.mpr ⟨List.forall_mem_append.mpr ⟨?_, ?_⟩, ?_⟩, ?_⟩
  · exact List.forall_mem_singleton.mpr rfl
  · refine List.forall_mem_cons.mpr ⟨rfl, ?_⟩
    split
    · exact List.forall_mem_nil _
    · exact List.forall_mem_singleton.mpr (touches_writing rfl)
  · split
    · exact List.forall_mem_nil _
    · exact List.forall_mem_cons.mpr ⟨rfl, List.forall_mem_singleton.mpr rfl⟩
  · split
    · exact List.forall_mem_singleton.mpr (touches_writing rfl)
    · refine List.forall_mem_append.mpr ⟨List.forall_mem_flatMap.mpr fun y _ => ?_, ?_⟩
      · exact List.forall_mem_cons.mpr ⟨rfl, heach _ y⟩
      · split
        · refine List.forall_mem_append.mpr ⟨List.forall_mem_append.mpr ⟨?_, ?_⟩, ?_⟩
          · exact List.forall_mem_flatMap.mpr fun y _ => heach _ y
          · exact List.forall_mem_flatMap.mpr fun y _ => heach _ y
          · exact List.forall_mem_flatMap.mpr fun y _ => heach _ y
        · exact List.forall_mem_nil _

theorem untouched_flagPlan (onChange name : String) :
    ∀ e ∈ plannedEffects (flagPlan x c i f onChange), e.touches name = false := by
  unfold flagPlan
  cases c.flagUse? x f with
  | error e => exact List.forall_mem_singleton.mpr rfl
  | ok o =>
      cases o with
      | none => exact List.forall_mem_nil _
      | some u => exact untouched_flagFieldPlan x c i f onChange name u

/-- What is planned for a field concerns the property of its clean name, if the field is to be seen as one, and no
other property. -/
theorem propertyAfter?_fieldPlan : Yields (fieldPlan x c i f) fun es => ∀ name p,
    propertyAfter? c name p es =
      if f.ClaimsProperty x ∧ f.cleanName = name then
        (claimedBy x c i f (p.getD (c.newProperty name))).map some
      else some p := by
  refine .bind (.any _) fun traits _ => .bind Bearer.bool?_yields fun choice hchoice => ?_
  refine .bind Bearer.string?_yields fun s hs => .pure fun name p => ?_
  have hproperty : hasProperty x f choice = true ↔ f.ClaimsProperty x := by
    rw [hchoice]
    exact hasProperty_iff
  have hcode : s.getD "" = f.onChange := congrArg (·.getD "") hs
  have hnotes : ∀ e ∈ (flagNotes c f).map (Effect.note (.field i)), e.touches name = false :=
    List.forall_mem_map.mpr fun _ _ => rfl
  have hflags : ∀ e ∈ plannedEffects (flagPlan x c i f (s.getD "")), e.touches name = false :=
    untouched_flagPlan x c i f _ name
  by_cases hclaims : f.ClaimsProperty x ∧ f.cleanName = name
  · obtain ⟨hclaims, rfl⟩ := hclaims
    have hthis : f.ClaimsProperty x ∧ f.cleanName = f.cleanName := ⟨hclaims, rfl⟩
    rw [if_pos hthis, hproperty.mpr hclaims, if_pos rfl]
    simp only [propertyAfter?_append, propertyAfter?_untouched hnotes, propertyAfter?_untouched hflags,
      propertyAfter?_singleton, Option.bind_fun_some]
    have hclaimed : (Effect.propertyAfter? c f.cleanName p (.annotate (.field i) traits)).bind (fun q =>
        Effect.propertyAfter? c f.cleanName q (.claimProperty f.cleanName i f.type)) =
          some (some (let q := p.getD (c.newProperty f.cleanName)
            { q with source := some i, type := if q.type.isEmpty then f.type else q.type })) := if_pos rfl
    rw [hclaimed, Option.bind_some, propertyAfter?_side x c i f rfl rfl, claimedBy]
    cases bindSide x c i f .getter _ with
    | none => rfl
    | some q => exact propertyAfter?_side x c i f rfl (by rw [hcode]; rfl) _ q
  · rw [if_neg hclaims]
    refine propertyAfter?_untouched ?_ p
    have hother : hasProperty x f choice = true → f.cleanName ≠ name := fun h heq => hclaims ⟨hproperty.mp h, heq⟩
    refine List.forall_mem_append.mpr ⟨List.forall_mem_append.mpr ⟨List.forall_mem_append.mpr
      ⟨List.forall_mem_append.mpr ⟨List.forall_mem_append.mpr ⟨?_, ?_⟩, ?_⟩, ?_⟩, hnotes⟩, hflags⟩
    · exact List.forall_mem_singleton.mpr rfl
    · split
      · exact List.forall_mem_singleton.mpr (decide_eq_false (hother ‹_›))
      · exact List.forall_mem_nil _
    · split
      · exact List.forall_mem_nil _
      · exact untouched_accessorPlan c i f .getter hother _ _
    · split
      · exact List.forall_mem_nil _
      · exact untouched_accessorPlan c i f .setter hother _ _

end Class

/-! ### The fields of a property -/

/-- A side of a property that fields need is taken once, so the sides of two fields in a row complement each other. -/
theorem Property.ClaimedBy.sides {x : PlanContext} {c : Class} {i j : Nat} {f g : Field} {p q r : Property}
    (hq : q.ClaimedBy x c i f p) (hr : r.ClaimedBy x c j g q) (hf : f.ClaimsProperty x) (hg : g.ClaimsProperty x)
    (role : AccessorRole) : g.hasSide role = !f.hasSide role := by
  have hapart : ∀ s, f.hasSide s = true → g.hasSide s = true → False := by
    intro s hfs hgs
    have hbound := hq.bound s hfs
    rw [hr.free s hgs] at hbound
    cases hbound
  obtain ⟨s, hs⟩ := hf.exists_hasSide
  obtain ⟨t, ht⟩ := hg.exists_hasSide
  have hne : t ≠ s := fun heq => hapart s hs (heq ▸ ht)
  cases hside : f.hasSide role with
  | true => exact Bool.eq_false_iff.mpr fun h => hapart role hside h
  | false =>
      have hrole : role = t := by
        have : role ≠ s := fun heq => by simp [heq, hs] at hside
        cases role <;> cases s <;> cases t <;> simp_all
      rw [hrole]
      exact ht

namespace Class

/-- The fields that claim the property of a name, in their order. -/
def claimants (c : Class) (x : PlanContext) (name : String) : List (Field × Nat) :=
  c.fields.zipIdx.filter fun q => decide (q.1.ClaimsProperty x ∧ q.1.cleanName = name)

variable {x : PlanContext} {c : Class}

theorem mem_claimants {name : String} {f : Field} {i : Nat} :
    (f, i) ∈ c.claimants x name ↔ c.fields[i]? = some f ∧ f.ClaimsProperty x ∧ f.cleanName = name := by
  unfold claimants
  rw [List.mem_filter, List.mk_mem_zipIdx_iff_getElem?, decide_eq_true_eq]

theorem pairwise_claimants (c : Class) (x : PlanContext) (name : String) :
    (c.claimants x name).Pairwise fun a b => a.2 < b.2 := by
  refine List.Pairwise.sublist List.filter_sublist ?_
  rw [← List.pairwise_map (f := Prod.snd), List.zipIdx_map_snd]
  exact List.pairwise_lt_range'

/-- The property of a name after some fields have claimed it. -/
def claimedByAll (x : PlanContext) (c : Class) (name : String) (p : Option Property) (l : List (Field × Nat)) :
    Option (Option Property) :=
  l.foldlM (fun p q => (claimedBy x c q.2 q.1 (p.getD (c.newProperty name))).map some) p

theorem propertyAfter?_fields {l : List (Field × Nat)} (name : String) (p : Option Property)
    (hfail : ∀ q ∈ l, ∀ e, .fail e ∉ plannedEffects (fieldPlan x c q.2 q.1)) :
    propertyAfter? c name p (l.flatMap fun q => plannedEffects (fieldPlan x c q.2 q.1)) =
      claimedByAll x c name p (l.filter fun q => decide (q.1.ClaimsProperty x ∧ q.1.cleanName = name)) := by
  induction l generalizing p with
  | nil => rfl
  | cons q l ih =>
      obtain ⟨hq, hl⟩ := List.forall_mem_cons.mp hfail
      obtain ⟨es, hplan⟩ := exists_of_plannedEffects hq
      rw [List.flatMap_cons, propertyAfter?_append, hplan, plannedEffects_ok,
        propertyAfter?_fieldPlan x c q.2 q.1 es hplan, List.filter_cons]
      by_cases hclaims : q.1.ClaimsProperty x ∧ q.1.cleanName = name
      · rw [if_pos hclaims, if_pos (decide_eq_true hclaims)]
        show _ = Option.bind ((claimedBy x c q.2 q.1 (p.getD (c.newProperty name))).map some) _
        exact congrArg _ (funext fun r => ih r hl)
      · rw [if_neg hclaims, if_neg (by simpa using hclaims), Option.bind_some]
        exact ih p hl

/-- At most two fields have claimed a property. -/
theorem cases_of_claimedByAll {name : String} {l : List (Field × Nat)} (hl : ∀ q ∈ l, q.1.ClaimsProperty x)
    {p p' : Option Property} (h : claimedByAll x c name p l = some p') :
    l = [] ∧ p' = p ∨
      (∃ f i q, l = [(f, i)] ∧ p' = some q ∧ q.ClaimedBy x c i f (p.getD (c.newProperty name))) ∨
      ∃ f i g j q r, l = [(f, i), (g, j)] ∧ p' = some r ∧ q.ClaimedBy x c i f (p.getD (c.newProperty name)) ∧
        r.ClaimedBy x c j g q := by
  have hstep : ∀ {a : Field × Nat} {l : List (Field × Nat)} {p : Option Property},
      claimedByAll x c name p (a :: l) = some p' → ∃ q, q.ClaimedBy x c a.2 a.1 (p.getD (c.newProperty name)) ∧
        claimedByAll x c name (some q) l = some p' := by
    intro a l p h
    obtain ⟨o, ho, h⟩ := Option.bind_eq_some_iff.mp h
    obtain ⟨q, hq, rfl⟩ := Option.map_eq_some_iff.mp ho
    exact ⟨q, of_claimedBy hq, h⟩
  rcases l with _ | ⟨a, _ | ⟨b, _ | ⟨e, l⟩⟩⟩
  · exact .inl ⟨rfl, (Option.some.inj h).symm⟩
  · obtain ⟨q, hq, h⟩ := hstep h
    exact .inr (.inl ⟨a.1, a.2, q, rfl, (Option.some.inj h).symm, hq⟩)
  · obtain ⟨q, hq, h⟩ := hstep h
    obtain ⟨r, hr, h⟩ := hstep h
    exact .inr (.inr ⟨a.1, a.2, b.1, b.2, q, r, rfl, (Option.some.inj h).symm, hq, hr⟩)
  · -- A third field would need a side of one of the first two.
    obtain ⟨q, hq, h⟩ := hstep h
    obtain ⟨r, hr, h⟩ := hstep h
    obtain ⟨s, hs, h⟩ := hstep h
    simp only [List.forall_mem_cons] at hl
    obtain ⟨ha, hb, he, -⟩ := hl
    have hab := hq.sides hr ha hb
    have hbe := hr.sides hs hb he
    obtain ⟨role, hrole⟩ := he.exists_hasSide
    have hfirst : a.1.hasSide role = true := by
      rw [← hrole, hbe, hab, Bool.not_not]
    have hsecond : b.1.hasSide role = false := by rw [hab, hfirst]; rfl
    have htaken := (hr.kept role hsecond).trans (hq.bound role hfirst)
    rw [Option.getD_some] at hs
    rw [hs.free role hrole] at htaken
    cases htaken

end Class

/-! ### Properties of methods -/

/-- The property stands for no field and has no type of its own. -/
structure Property.IsBare (p : Property) : Prop where
  source : p.source = none
  type : p.type = ""

theorem Property.materialize_inherit (p : Property) (fields : List Field) :
    let q := (p.inherit fields).materialize
    q.source = p.source ∧ (∀ role, q.accessor role = p.accessor role) ∧ (p.type.isEmpty = false → q.type = p.type) := by
  have hinherit : (p.inherit fields).source = p.source ∧ (∀ role, (p.inherit fields).accessor role = p.accessor role) ∧
      (p.inherit fields).type = p.type := by
    unfold Property.inherit
    split
    · exact ⟨rfl, fun _ => rfl, rfl⟩
    · refine ⟨rfl, fun role => ?_, rfl⟩
      cases role with
      | getter | setter => rfl
  obtain ⟨hsource, haccessor, htype⟩ := hinherit
  refine ⟨hsource, fun role => ?_, fun h => ?_⟩
  · rw [← haccessor role]
    cases role with
    | getter | setter => rfl
  · show (if (p.inherit fields).type.isEmpty then _ else (p.inherit fields).type) = _
    rw [htype, h]
    rfl

theorem Class.property_bare {c : Class} (hc : ∀ q ∈ c.properties, q.2.IsBare) (name : String) :
    (c.property name).IsBare := by
  unfold Class.property
  cases hget : c.properties.get? name with
  | some p => exact hc _ (Keyed.mem_of_get?_eq_some hget)
  | none => exact ⟨rfl, rfl⟩

namespace Reader

variable {r : Reader} {path : SourcePath} {text : String} {h : Header}

theorem bindAccessor_bare {c d : Class} {role : AccessorRole} {name : String} {m : MethodLink}
    (hc : ∀ q ∈ c.properties, q.2.IsBare) (hd : c.bindAccessor role name m = .ok d) :
    ∀ q ∈ d.properties, q.2.IsBare := by
  have hproperty := Class.property_bare hc name
  unfold Class.bindAccessor Property.bind at hd
  cases hfree : (c.property name).accessor role with
  | some taken => simp [hfree] at hd
  | none =>
      simp only [hfree, Except.ok.injEq] at hd
      subst hd
      intro q hq
      rcases Keyed.mem_of_mem_put hq with rfl | hq
      · cases role with
        | getter | setter => exact ⟨hproperty.source, hproperty.type⟩
      · exact hc q hq

theorem claimProperties_bare {c d : Class} {m : Method} (hc : ∀ q ∈ c.properties, q.2.IsBare)
    (hd : r.claimProperties c m = .ok d) : ∀ q ∈ d.properties, q.2.IsBare := by
  obtain ⟨k, hk, hd⟩ := bind_eq_ok.mp hd
  have hgetter : ∀ q ∈ k.properties, q.2.IsBare := by
    obtain ⟨getter, -, hk⟩ := bind_eq_ok.mp hk
    cases getter with
    | none => exact pure_eq_ok.mp hk ▸ hc
    | some p => exact bindAccessor_bare hc (lift_eq_ok.mp hk)
  obtain ⟨setter, -, hd⟩ := bind_eq_ok.mp hd
  cases setter with
  | none => exact pure_eq_ok.mp hd ▸ hgetter
  | some p =>
      dsimp only at hd
      split at hd
      · cases hd
      · exact bindAccessor_bare hgetter (lift_eq_ok.mp hd)

theorem isEmpty_type_of_mem_read (hr : r.read path text = .ok h) {c : Class} (hc : c ∈ h.classes) :
    ∀ f ∈ c.fields, f.type.isEmpty = false := by
  intro f hf
  obtain ⟨_, hd⟩ := exists_isDeclarator hr hc f hf
  rw [String.isEmpty_eq_false_iff]
  exact fun hempty => hd.ne_nil (congrArg String.toList hempty)

theorem isBare_of_mem_read (hr : r.read path text = .ok h) {c : Class} (hc : c ∈ h.classes) :
    ∀ q ∈ c.properties, q.2.IsBare := by
  refine read_classes (P := fun c => ∀ q ∈ c.properties, q.2.IsBare) ⟨?_, ?_, ?_, ?_⟩ hr c hc
  · intro site text c _ hc q hq
    obtain ⟨_, -, hc⟩ := classOf_makes site text c hc
    rw [hc.properties] at hq
    exact absurd hq List.not_mem_nil
  · exact fun _ hc => hc
  · exact fun _ hc _ => hc
  · intro site access text c d m _ hc _ hd
    exact (claimProperties_bare hc hd : ∀ q ∈ d.properties, q.2.IsBare)

end Reader

/-! ### Properties of derived classes -/

namespace Property

/-- The accessor of a property for a side is a method of the derived class `d` that was made for it from a field. -/
def HasAccessor (p : Property) (d : Class) (role : AccessorRole) (i : Nat) (f : Field) : Prop :=
  ∃ m ∈ d.methods, p.accessor role = some m.link ∧ m.synthesis = some ⟨.field i, role.label, f.line⟩

/-- The property of a derived class `d` is that of one field.  It has the accessors that the field has, and only
declared methods besides. -/
structure IsOf (p : Property) (d : Class) (i : Nat) (f : Field) : Prop where
  source : p.source = some i
  type : p.type = f.type
  made : ∀ role, f.hasSide role = true → p.HasAccessor d role i f
  declared : ∀ role, f.hasSide role = false → ∀ l, p.accessor role = some l → l.synthesis = none

/-- Two fields of a derived class `d` share the property.  It stands for the second one with the type of the first one,
and each of them has one accessor. -/
structure IsShared (p : Property) (d : Class) (i : Nat) (f : Field) (j : Nat) (g : Field) : Prop where
  order : i < j
  source : p.source = some j
  type : p.type = f.type
  sides : ∀ role, g.hasSide role = !f.hasSide role
  first : ∀ role, f.hasSide role = true → p.HasAccessor d role i f
  second : ∀ role, g.hasSide role = true → p.HasAccessor d role j g

/-- What a property of a derived class `d` is to the fields of a list. -/
inductive HasFields (p : Property) (d : Class) : List (Field × Nat) → Prop where
  | sole {f : Field} {i : Nat} (h : p.IsOf d i f) : p.HasFields d [(f, i)]
  | shared {f g : Field} {i j : Nat} (h : p.IsShared d i f j g) : p.HasFields d [(f, i), (g, j)]

end Property

namespace Class

variable {x : PlanContext} {c : Class}

theorem accessorMethod_mem (hc : c.IsDeclared) (hfault : (c.derive x).fault = none) {i : Nat} {f : Field}
    (hf : c.fields[i]? = some f) {role : AccessorRole} (hside : f.hasSide role = true) :
    accessorMethod x c i f role ∈ (c.derive x).result.methods := by
  obtain ⟨ms, hms, hfilter, -⟩ := exists_fieldMethods hc hfault hf
  suffices hmem : accessorMethod x c i f role ∈ ms from List.mem_of_mem_filter (hfilter ▸ hmem)
  obtain ⟨o, -, rfl⟩ := fieldMethods_yields x c i f ms hms
  refine List.mem_append_left _ ?_
  cases role with
  | getter =>
      have habsent : f.flags.has .noGetter = false := by simpa [Field.hasSide] using hside
      exact List.mem_append_left _ (by simp [habsent, accessorMethod])
  | setter =>
      have habsent : f.flags.has .noSetter = false := by simpa [Field.hasSide] using hside
      exact List.mem_append_right _ (by simp [habsent, accessorMethod])

/-- Deriving a class lets its fields claim their properties, which then take up their flags and have a type. -/
theorem exists_properties (hfault : (c.derive x).fault = none) : ∃ fields : List Field, ∀ name, ∃ p,
    claimedByAll x c name (c.properties.get? name) (c.claimants x name) = some p ∧
      (c.derive x).result.properties.get? name = p.map fun p => (p.inherit fields).materialize := by
  obtain ⟨choices, w, -, hrun, -, hresult⟩ := exists_run_of_derive hfault
  have hfail := ClassWork.ne_fail_of_run hrun
  obtain ⟨plain, hplain, hplan⟩ := exists_plain_plan hfail
  refine ⟨w.owner.fields, fun name => ⟨w.owner.properties.get? name, ?_, ?_⟩⟩
  · have hproperty := ClassWork.property_run hrun name
    have huntouched : ∀ e ∈ plain, e.touches name = false := by
      intro e he
      have hplain := List.all_eq_true.mp hplain e he
      cases e with
      | claimProperty | bind => cases hplain
      | annotate | note | raiseProxy | synthesize | addToBody | declareFlag | attach | warn | fail => rfl
    rw [hplan, propertyAfter?_append, propertyAfter?_untouched huntouched, Option.bind_some] at hproperty
    rw [← hproperty, propertyAfter?_fields]
    · rfl
    · intro q hq e he
      refine hfail e ?_
      rw [hplan]
      exact List.mem_append_right _ (List.mem_flatMap.mpr ⟨q, hq, he⟩)
  · rw [hresult]
    show ((w.owner.properties.mapValues (·.inherit w.owner.fields)).mapValues Property.materialize).get? name = _
    rw [Keyed.get?_mapValues, Keyed.get?_mapValues, Option.map_map]
    rfl

theorem synthesis_accessorMethod (i : Nat) (f : Field) (role : AccessorRole) :
    (accessorMethod x c i f role).synthesis = some ⟨.field i, role.label, f.line⟩ := by
  cases role with
  | getter | setter => rfl

/-! ### Sole and shared properties -/

section derived

variable {fields : List Field} {i j : Nat} {f g : Field} {p q s : Property}

theorem hasAccessor_derive (hc : c.IsDeclared) (hfault : (c.derive x).fault = none) (hf : c.fields[i]? = some f)
    {role : AccessorRole} (hside : f.hasSide role = true)
    (hq : q.accessor role = some (accessorMethod x c i f role).link) :
    (q.inherit fields).materialize.HasAccessor (c.derive x).result role i f :=
  ⟨_, accessorMethod_mem hc hfault hf hside, ((q.materialize_inherit fields).2.1 role).trans hq,
    synthesis_accessorMethod i f role⟩

theorem type_of_claimedBy (hbare : p.IsBare) (hq : q.ClaimedBy x c i f p) : q.type = f.type := by
  rw [hq.type, hbare.type]
  rfl

theorem isOf_derive (hc : c.IsDeclared) (hfault : (c.derive x).fault = none) (hf : c.fields[i]? = some f)
    (htype : f.type.isEmpty = false) (hbare : p.IsBare) (hp : ∀ role l, p.accessor role = some l → l.synthesis = none)
    (hq : q.ClaimedBy x c i f p) : (q.inherit fields).materialize.IsOf (c.derive x).result i f := by
  have hqtype : q.type = f.type := type_of_claimedBy hbare hq
  obtain ⟨hsource, haccessor, hkept⟩ := q.materialize_inherit fields
  refine ⟨hsource.trans hq.source, (hkept (hqtype ▸ htype)).trans hqtype, fun role hside => ?_,
    fun role hside l hl => ?_⟩
  · exact hasAccessor_derive hc hfault hf hside (hq.bound role hside)
  · rw [haccessor, hq.kept role hside] at hl
    exact hp role l hl

theorem isShared_derive (hc : c.IsDeclared) (hfault : (c.derive x).fault = none) (horder : i < j)
    (hf : c.fields[i]? = some f) (hg : c.fields[j]? = some g) (hfclaims : f.ClaimsProperty x)
    (hgclaims : g.ClaimsProperty x) (htype : f.type.isEmpty = false) (hbare : p.IsBare) (hq : q.ClaimedBy x c i f p)
    (hs : s.ClaimedBy x c j g q) : (s.inherit fields).materialize.IsShared (c.derive x).result i f j g := by
  have hqtype : q.type = f.type := type_of_claimedBy hbare hq
  have hstype : s.type = f.type := by
    rw [hs.type, hqtype, htype]
    rfl
  have hsides := hq.sides hs hfclaims hgclaims
  obtain ⟨hsource, -, hkept⟩ := s.materialize_inherit fields
  refine ⟨horder, hsource.trans hs.source, (hkept (hstype ▸ htype)).trans hstype, hsides, fun role hside => ?_,
    fun role hside => hasAccessor_derive hc hfault hg hside (hs.bound role hside)⟩
  -- The second field has the other side, so it leaves the accessor of the first one.
  have hother : g.hasSide role = false := by
    rw [hsides, hside]
    rfl
  exact hasAccessor_derive hc hfault hf hside ((hs.kept role hother).trans (hq.bound role hside))

end derived

/-- In a class of a header that is derived without a fault, a property that no field claims has no source, and any other
one is what the fields that claim it make of it. -/
theorem cases_of_claimants {r : Reader} {path : SourcePath} {text : String} {h : Header}
    (hread : r.read path text = .ok h) (hc : c ∈ h.classes) (hfault : (c.derive x).fault = none) (name : String) :
    (c.claimants x name = [] ∧ ∀ p, (c.derive x).result.properties.get? name = some p → p.source = none) ∨
      ∃ p, (c.derive x).result.properties.get? name = some p ∧
        p.HasFields (c.derive x).result (c.claimants x name) := by
  have hdeclared := Reader.isDeclared_of_mem_read hread hc
  have hbare := Class.property_bare (Reader.isBare_of_mem_read hread hc) name
  have htype : ∀ {f : Field} {i : Nat}, c.fields[i]? = some f → f.type.isEmpty = false := fun hf =>
    Reader.isEmpty_type_of_mem_read hread hc _ (List.mem_of_getElem? hf)
  obtain ⟨fields, hproperties⟩ := exists_properties hfault
  obtain ⟨o, hclaimed, hget⟩ := hproperties name
  have hclaims : ∀ q ∈ c.claimants x name, q.1.ClaimsProperty x := fun q hq => (mem_claimants.mp hq).2.1
  rcases cases_of_claimedByAll hclaims hclaimed with ⟨hnil, rfl⟩ | ⟨f, i, q, hsole, rfl, hq⟩ |
    ⟨f, i, g, j, q, s, hshared, rfl, hq, hs⟩
  · refine .inl ⟨hnil, fun p hp => ?_⟩
    rw [hget] at hp
    obtain ⟨q, hq, rfl⟩ := Option.map_eq_some_iff.mp hp
    rw [(q.materialize_inherit fields).1]
    exact (Reader.isBare_of_mem_read hread hc _ (Keyed.mem_of_get?_eq_some hq)).source
  · obtain ⟨hf, -⟩ := mem_claimants.mp (hsole ▸ List.mem_cons_self)
    rw [hsole]
    refine .inr ⟨_, hget, .sole (isOf_derive hdeclared hfault hf (htype hf) hbare (fun role l hl => ?_) hq)⟩
    obtain ⟨m, hm, rfl⟩ :=
      ((Reader.readFrom_of_mem_classes hread hc).properties.property name).accessor role l hl
    exact (hdeclared.methods m hm).notMade
  · obtain ⟨hf, hfclaims, -⟩ := mem_claimants.mp (hshared ▸ List.mem_cons_self)
    obtain ⟨hg, hgclaims, -⟩ := mem_claimants.mp (hshared ▸ List.mem_cons_of_mem _ List.mem_cons_self)
    have horder := pairwise_claimants c x name
    rw [hshared, List.pairwise_pair] at horder
    rw [hshared]
    exact .inr ⟨_, hget, .shared
      (isShared_derive hdeclared hfault horder hf hg hfclaims hgclaims (htype hf) hbare hq hs)⟩

/-- Properties of a class that is derived without a fault.  A field that is to be seen as a property has the property
of its clean name, by itself or together with another field; a property that stands for a field is claimed by it, and
one that stands for none is claimed by none. -/
theorem derive_fieldProperties {r : Reader} {path : SourcePath} {text : String} {h : Header}
    (hread : r.read path text = .ok h) (hc : c ∈ h.classes) (hfault : (c.derive x).fault = none) :
    let d := (c.derive x).result
    (∀ (i : Nat) (f : Field), c.fields[i]? = some f → f.ClaimsProperty x →
      ∃ p, d.properties.get? f.cleanName = some p ∧ p.HasFields d (c.claimants x f.cleanName)) ∧
    ∀ q ∈ d.properties, (q.2.source = none ∧ c.claimants x q.1 = []) ∨ q.2.HasFields d (c.claimants x q.1) := by
  intro d
  refine ⟨fun i f hf hclaims => ?_, fun q hq => ?_⟩
  · rcases cases_of_claimants hread hc hfault f.cleanName with ⟨hnil, -⟩ | hfields
    · have hmem : (f, i) ∈ c.claimants x f.cleanName := mem_claimants.mpr ⟨hf, hclaims, rfl⟩
      exact absurd (hnil ▸ hmem) List.not_mem_nil
    · exact hfields
  · obtain ⟨_, _, _, hderives, -⟩ := exists_derives (x := x) (Reader.readFrom_of_mem_classes hread hc)
      (Reader.isDeclared_of_mem_read hread hc)
    have hget : d.properties.get? q.1 = some q.2 := Keyed.get?_eq_some_of_mem hderives.follows.properties.keys hq
    rcases cases_of_claimants hread hc hfault q.1 with ⟨hnil, hsource⟩ | ⟨p, hp, hfields⟩
    · exact .inl ⟨hsource q.2 hget, hnil⟩
    · obtain rfl : q.2 = p := Option.some.inj (hget.symm.trans hp)
      exact .inr hfields

theorem exists_sharedName :
    ∃ (h : Header) (c : Class) (f g : Field),
      (Reader.ofSettings {}).read ⟨.relative, ["Unit.h"]⟩
          ("RClass()\nstruct Unit \x7b\nRBody();\nprivate:\nRField()\nint mCount;\n" ++
            "RField(Getter = false, Setter = true)\nfloat Count;\n\x7d;") = .ok h ∧
        c ∈ h.classes ∧ (c.derive ((⟨[h]⟩ : Program).planContext {})).fault = none ∧
        c.claimants ((⟨[h]⟩ : Program).planContext {}) "Count" = [(f, 0), (g, 1)] ∧
        f.type = "int" ∧ g.type = "float" := by
  have hrun : ((Reader.ofSettings {}).read ⟨.relative, ["Unit.h"]⟩
      ("RClass()\nstruct Unit \x7b\nRBody();\nprivate:\nRField()\nint mCount;\n" ++
        "RField(Getter = false, Setter = true)\nfloat Count;\n\x7d;")
      |>.toOption.any fun h => h.classes.any fun c =>
        let x := (⟨[h]⟩ : Program).planContext {}
        (c.derive x).fault.isNone &&
          (c.claimants x "Count").map (fun q => (q.1.type, q.2)) == [("int", 0), ("float", 1)]) = true := by
    rw [Reader.read_ofList_append]
    decide +kernel
  obtain ⟨h, hread, hrun⟩ := Checked.exists_ok_of_any hrun
  obtain ⟨c, hc, hderived⟩ := List.any_eq_true.mp hrun
  obtain ⟨hfault, hclaimants⟩ := Bool.and_eq_true_iff.mp hderived
  obtain ⟨⟨f, i⟩, l, hl, hf, hrest⟩ := List.map_eq_cons_iff.mp (beq_iff_eq.mp hclaimants)
  obtain ⟨⟨g, j⟩, l, rfl, hg, hrest⟩ := List.map_eq_cons_iff.mp hrest
  obtain rfl := List.map_eq_nil_iff.mp hrest
  obtain ⟨hf, rfl⟩ := Prod.mk.inj hf
  obtain ⟨hg, rfl⟩ := Prod.mk.inj hg
  exact ⟨h, c, f, g, hread, hc, Option.isNone_iff_eq_none.mp hfault, hl, hf, hg⟩

/-- The property of two fields of one clean name. -/
theorem derive_fieldProperties_shared :
    ∃ (h : Header) (c : Class) (f g : Field) (p : Property),
      (Reader.ofSettings {}).read ⟨.relative, ["Unit.h"]⟩
          ("RClass()\nstruct Unit \x7b\nRBody();\nprivate:\nRField()\nint mCount;\n" ++
            "RField(Getter = false, Setter = true)\nfloat Count;\n\x7d;") = .ok h ∧
        c ∈ h.classes ∧ (c.derive ((⟨[h]⟩ : Program).planContext {})).fault = none ∧
        (c.derive ((⟨[h]⟩ : Program).planContext {})).result.properties.get? "Count" = some p ∧
        p.IsShared (c.derive ((⟨[h]⟩ : Program).planContext {})).result 0 f 1 g ∧
        f.type = "int" ∧ g.type = "float" := by
  obtain ⟨h, c, f, g, hread, hc, hfault, hclaimants, hftype, hgtype⟩ := exists_sharedName
  obtain ⟨hf, hclaims, hname⟩ := mem_claimants.mp (hclaimants ▸ List.mem_cons_self)
  obtain ⟨p, hget, hfields⟩ := (derive_fieldProperties hread hc hfault).1 0 f hf hclaims
  rw [hname] at hget hfields
  rw [hclaimants] at hfields
  cases hfields with
  | shared hshared => exact ⟨h, c, f, g, p, hread, hc, hfault, hget, hshared, hftype, hgtype⟩

/-- Not every field that is to be seen as a property has a property that stands for it and has its type, and of which
all synthesized accessors were made from it. -/
theorem not_forall_fieldProperties :
    ¬∀ (r : Reader) (path : SourcePath) (text : String) (h : Header) (c : Class), r.read path text = .ok h →
      c ∈ h.classes → (c.derive ((⟨[h]⟩ : Program).planContext r.settings)).fault = none →
      (∀ (i : Nat) (f : Field), c.fields[i]? = some f → f.ClaimsProperty ((⟨[h]⟩ : Program).planContext r.settings) →
        ∃ p, (c.derive ((⟨[h]⟩ : Program).planContext r.settings)).result.properties.get? f.cleanName = some p ∧
          p.source = some i) ∧
      ∀ q ∈ (c.derive ((⟨[h]⟩ : Program).planContext r.settings)).result.properties, ∀ (i : Nat) (f : Field),
        q.2.source = some i → c.fields[i]? = some f → q.2.type = f.type ∧
          ∀ role l s j, q.2.accessor role = some l → l.synthesis = some s → s.origin = .field j → j = i := by
  intro hall
  obtain ⟨h, c, f, g, hread, hc, hfault, hclaimants, -⟩ := exists_sharedName
  obtain ⟨hf, hfclaims, hfname⟩ := mem_claimants.mp (hclaimants ▸ List.mem_cons_self)
  obtain ⟨hg, hgclaims, hgname⟩ := mem_claimants.mp (hclaimants ▸ List.mem_cons_of_mem _ List.mem_cons_self)
  obtain ⟨hsource, -⟩ := hall _ _ _ h c hread hc hfault
  obtain ⟨p, hp, hpsource⟩ := hsource 0 f hf hfclaims
  obtain ⟨q, hq, hqsource⟩ := hsource 1 g hg hgclaims
  rw [hfname] at hp
  rw [hgname] at hq
  obtain rfl := Option.some.inj (hp.symm.trans hq)
  exact absurd (hpsource.symm.trans hqsource) (by decide)

end Class
end HeaderReflection
