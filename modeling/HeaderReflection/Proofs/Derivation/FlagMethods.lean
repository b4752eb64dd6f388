import HeaderReflection.Proofs.Derivation.FieldMethods
import HeaderReflection.Proofs.Source.Accepted
import HeaderReflection.Proofs.Source.Characters
import HeaderReflection.Proofs.Source.EnumBodies

/-! # Methods for flags

A field that holds the flags of an enum gets methods for every enumerator, which the class lists once more,
each with the declared flag that it is for.

* A plan makes the methods in rounds over the enumerators: tests, methods that set, that unset and that
  toggle.  The first round declares the flags of the class, and each later one attaches its methods to these
  (`Class.flagRounds`).
* A method is attached to the last flag of a name.  It finds its own flag because no two enumerators of a
  field have one name (`Class.flagsAfter_attached`), and that they have none follows from the roles of the
  tests (`Class.nodup_names_of_keys`).
* So a field adds its own flags to those of the class and touches no others (`Class.flagsAfter_fieldPlan`).
  What an effect does to declared flags is told without the rest of the class (`Effect.flagsAfter`), and most
  effects do nothing to them (`Effect.isQuiet`).

A class that is derived without a fault has for each of its flag fields the methods that the enum asks for,
split among the enumerators, and a warning if the values leave gaps (`Class.derive_flags`). -/

namespace HeaderReflection

open Checked

/-! ### Effects on declared flags -/

/-- The declared flags of a class after an effect. -/
def Effect.flagsAfter (fs : List DeclaredFlag) : Effect → List DeclaredFlag
  | .declareFlag f => fs ++ [f]
  | .attach flag m => attachMethod flag m fs
  | _ => fs

/-- A warning about a declaration of a class. -/
def Class.warningAt (c : Class) (line : Nat) (message : String) : Diagnostic :=
  ⟨.warning, message, some c.path, line, 1, none⟩

/-- The warning that an effect adds. -/
def Effect.warning? (c : Class) : Effect → Option Diagnostic
  | .warn line message => some (c.warningAt line message)
  | _ => none

/-- The effect neither concerns declared flags nor warns. -/
def Effect.isQuiet : Effect → Bool
  | .declareFlag _ | .attach _ _ | .warn _ _ => false
  | _ => true

theorem quiet_of_plain {es : List Effect} (h : es.all Effect.isPlain = true) : es.all Effect.isQuiet = true := by
  refine List.all_eq_true.mpr fun e he => ?_
  have hplain := List.all_eq_true.mp h e he
  cases e with
  | declareFlag | attach | warn => cases hplain
  | annotate | note | raiseProxy | synthesize | claimProperty | bind | addToBody | fail => rfl

/-- The declared flags of a class after effects in their order. -/
def flagsAfter (fs : List DeclaredFlag) (es : List Effect) : List DeclaredFlag := es.foldl Effect.flagsAfter fs

theorem flagsAfter_append (fs : List DeclaredFlag) (es gs : List Effect) :
    flagsAfter fs (es ++ gs) = flagsAfter (flagsAfter fs es) gs := List.foldl_append

theorem quiet_notes (o : Origin) (ns : List DocNote) : (ns.map (Effect.note o)).all Effect.isQuiet = true :=
  List.all_eq_true.mpr fun e he => by
    obtain ⟨n, -, rfl⟩ := List.mem_map.mp he
    rfl

theorem flagsAfter_quiet {es : List Effect} (h : es.all Effect.isQuiet = true) (fs : List DeclaredFlag) :
    flagsAfter fs es = fs := by
  induction es with
  | nil => rfl
  | cons e es ih =>
      obtain ⟨he, hes⟩ := Bool.and_eq_true_iff.mp (List.all_cons ▸ h)
      have hstep : e.flagsAfter fs = fs := by
        cases e with
        | declareFlag | attach | warn => cases he
        | annotate | note | raiseProxy | synthesize | claimProperty | bind | addToBody | fail => rfl
      show flagsAfter (e.flagsAfter fs) es = fs
      rw [hstep]
      exact ih hes

theorem flagsAfter_flatMap {α : Type} {l : List α} {g : α → List Effect} {k : α → List DeclaredFlag}
    (h : ∀ a ∈ l, ∀ fs, flagsAfter fs (g a) = fs ++ k a) (fs : List DeclaredFlag) :
    flagsAfter fs (l.flatMap g) = fs ++ l.flatMap k := by
  induction l generalizing fs with
  | nil => exact (List.append_nil fs).symm
  | cons a l ih =>
      obtain ⟨ha, hl⟩ := List.forall_mem_cons.mp h
      rw [List.flatMap_cons, flagsAfter_append, ha, ih hl, List.append_assoc, List.flatMap_cons]

theorem warnings_quiet {es : List Effect} (h : es.all Effect.isQuiet = true) (c : Class) :
    es.filterMap (Effect.warning? c) = [] := by
  refine List.filterMap_eq_nil_iff.mpr fun e he => ?_
  have hquiet := List.all_eq_true.mp h e he
  cases e with
  | declareFlag | attach | warn => cases hquiet
  | annotate | note | raiseProxy | synthesize | claimProperty | bind | addToBody | fail => rfl

namespace ClassWork

variable {w v : ClassWork}

theorem flags_perform {e : Effect} (h : w.perform e = .ok v) :
    v.owner.path = w.owner.path ∧ v.owner.declaredFlags = e.flagsAfter w.owner.declaredFlags ∧
      v.warnings = w.warnings ++ (e.warning? w.owner).toList := by
  have hnone : w.warnings = w.warnings ++ (none : Option Diagnostic).toList := (List.append_nil _).symm
  have hupdate : ∀ f o, (w.owner.updateOrigin f o).path = w.owner.path ∧
      (w.owner.updateOrigin f o).declaredFlags = w.owner.declaredFlags := by
    intro f o
    cases o with
    | owner | field i | method i => exact ⟨rfl, rfl⟩
  cases e with
  | annotate o t =>
      obtain rfl := Except.ok.inj h
      exact ⟨(hupdate _ o).1, (hupdate _ o).2, hnone⟩
  | note o n =>
      obtain rfl := Except.ok.inj h
      exact ⟨(hupdate _ o).1, (hupdate _ o).2, hnone⟩
  | synthesize s d =>
      change w.synthesize s d = .ok v at h
      unfold ClassWork.synthesize at h
      split at h
      · cases h
      · obtain rfl := Except.ok.inj h
        exact ⟨(hupdate _ s.origin).1, (hupdate _ s.origin).2, hnone⟩
  | bind role property m line =>
      unfold perform at h
      dsimp only at h
      split at h
      · rename_i d hbind
        obtain rfl := Except.ok.inj h
        obtain ⟨ps, rfl⟩ := Reader.bindAccessor_yields _ _ _ _ d hbind
        exact ⟨rfl, rfl, hnone⟩
      · cases h
  | raiseProxy | claimProperty | addToBody | declareFlag | attach =>
      obtain rfl := Except.ok.inj h
      exact ⟨rfl, rfl, hnone⟩
  | warn line message =>
      obtain rfl := Except.ok.inj h
      exact ⟨rfl, rfl, rfl⟩
  | fail f => cases h

theorem flags_run {es : List Effect} (h : w.run es = (v, none)) :
    v.owner.declaredFlags = flagsAfter w.owner.declaredFlags es ∧
      v.warnings = w.warnings ++ es.filterMap (Effect.warning? w.owner) := by
  induction es generalizing w with
  | nil =>
      obtain rfl : w = v := (Prod.mk.inj h).1
      exact ⟨rfl, (List.append_nil _).symm⟩
  | cons e es ih =>
      unfold run at h
      cases hstep : w.perform e with
      | error f => simp [hstep] at h
      | ok u =>
          simp only [hstep] at h
          obtain ⟨hpath, hflags, hwarnings⟩ := flags_perform hstep
          obtain ⟨hrest, hmore⟩ := ih h
          have hsame : Effect.warning? u.owner = Effect.warning? w.owner := by
            funext k
            cases k <;> simp [Effect.warning?, Class.warningAt, hpath]
          refine ⟨by rw [hrest, hflags]; rfl, ?_⟩
          rw [hmore, hwarnings, hsame, List.append_assoc, List.filterMap_cons]
          cases e.warning? w.owner with
          | none => rfl
          | some d => rfl

end ClassWork

/-! ### Attached methods -/

/-- A method joins the last flag of a name. -/
theorem attachMethod_last (fs : List DeclaredFlag) (g : DeclaredFlag) {gs : List DeclaredFlag} (m : MethodLink)
    (hgs : ∀ k ∈ gs, k.name ≠ g.name) :
    attachMethod g.name m (fs ++ g :: gs) = fs ++ { g with methods := g.methods ++ [m] } :: gs := by
  induction fs with
  | nil =>
      show attachMethod g.name m (g :: gs) = _
      unfold attachMethod
      rw [if_pos ⟨rfl, hgs⟩]
      rfl
  | cons f fs ih =>
      rw [List.cons_append, List.cons_append, ← ih]
      conv_lhs => unfold attachMethod
      refine if_neg fun h => ?_
      exact h.2 g (List.mem_append_right _ List.mem_cons_self) rfl

namespace Class

variable (x : PlanContext) (c : Class) (i : Nat) (f : Field) (e : Enumeration) (onChange : String)

/-- A flag that a field declares, with the methods of some accessors. -/
def flagEntry (y : Enumerator) (as : List FlagAccessor) : DeclaredFlag :=
  ⟨y.name, f.name, e.fullName ++ "." ++ y.name, as.map fun a => (flagMethod c i f onChange e y a).link⟩

theorem flagsAfter_flagAccessorPlan (fs : List DeclaredFlag) {gs : List DeclaredFlag} (y : Enumerator)
    (hgs : ∀ k ∈ gs, k.name ≠ y.name) (as bs : List FlagAccessor) :
    flagsAfter (fs ++ flagEntry c i f e onChange y as :: gs) (flagAccessorPlan c i f e onChange y bs) =
      fs ++ flagEntry c i f e onChange y (as ++ bs) :: gs := by
  induction bs generalizing as with
  | nil => rw [List.append_nil]; rfl
  | cons b bs ih =>
      have hattach := attachMethod_last fs (flagEntry c i f e onChange y as)
        (flagMethod c i f onChange e y b).link hgs
      have hentry : { flagEntry c i f e onChange y as with
          methods := (flagEntry c i f e onChange y as).methods ++ [(flagMethod c i f onChange e y b).link] } =
          flagEntry c i f e onChange y (as ++ [b]) := by
        simp [flagEntry]
      rw [hentry] at hattach
      show flagsAfter (attachMethod y.name (flagMethod c i f onChange e y b).link
        (fs ++ flagEntry c i f e onChange y as :: gs)) (flagAccessorPlan c i f e onChange y bs) = _
      rw [show y.name = (flagEntry c i f e onChange y as).name from rfl, hattach, ih, List.append_assoc]
      rfl

theorem flagsAfter_declared (fs : List DeclaredFlag) (ys : List Enumerator) (as : Enumerator → List FlagAccessor) :
    flagsAfter fs (ys.flatMap fun y =>
        Effect.declareFlag ⟨y.name, f.name, e.fullName ++ "." ++ y.name, []⟩ ::
          flagAccessorPlan c i f e onChange y (as y)) =
      fs ++ ys.map fun y => flagEntry c i f e onChange y (as y) := by
  induction ys generalizing fs with
  | nil => exact (List.append_nil fs).symm
  | cons y ys ih =>
      rw [List.flatMap_cons, flagsAfter_append]
      have hnone : ∀ k ∈ ([] : List DeclaredFlag), k.name ≠ y.name := List.forall_mem_nil _
      have hone := flagsAfter_flagAccessorPlan c i f e onChange fs y hnone [] (as y)
      rw [List.nil_append] at hone
      show flagsAfter (flagsAfter (fs ++ [flagEntry c i f e onChange y []]) _) _ = _
      rw [hone, ih, List.append_assoc]
      rfl

/-- A round that attaches methods finds the flags of the enumerators, if no two have one name. -/
theorem flagsAfter_attached (fs : List DeclaredFlag) {ys : List Enumerator} (hys : (ys.map (·.name)).Nodup)
    (as bs : Enumerator → List FlagAccessor) :
    flagsAfter (fs ++ ys.map fun y => flagEntry c i f e onChange y (as y))
        (ys.flatMap fun y => flagAccessorPlan c i f e onChange y (bs y)) =
      fs ++ ys.map fun y => flagEntry c i f e onChange y (as y ++ bs y) := by
  induction ys generalizing fs with
  | nil => rfl
  | cons y ys ih =>
      obtain ⟨hy, hys⟩ := List.nodup_cons.mp hys
      have hlater : ∀ k ∈ ys.map fun z => flagEntry c i f e onChange z (as z), k.name ≠ y.name := by
        intro k hk heq
        obtain ⟨z, hz, rfl⟩ := List.mem_map.mp hk
        exact hy (List.mem_map.mpr ⟨z, hz, heq⟩)
      rw [List.flatMap_cons, flagsAfter_append, List.map_cons,
        flagsAfter_flagAccessorPlan c i f e onChange fs y hlater, ← List.singleton_append, ← List.append_assoc,
        ih _ hys, List.append_assoc]
      rfl

/-! ### The plan of a field -/

/-- The flags that a field declares for its class. -/
def fieldFlags (u : FlagUse) : List DeclaredFlag :=
  u.enumeration.enumerators.map fun y =>
    flagEntry c i f u.enumeration onChange y (u.accessors x.settings.names y)

/-- The warning on a field whose enum leaves gaps. -/
def fieldWarnings (u : FlagUse) : List Diagnostic :=
  if u.enumeration.isConsecutive then [] else [c.warningAt f.line (gapsMessage u.enumeration)]

theorem warnings_flagAccessorPlan (y : Enumerator) (as : List FlagAccessor) :
    (flagAccessorPlan c i f e onChange y as).filterMap (Effect.warning? c) = [] := by
  unfold flagAccessorPlan
  rw [List.filterMap_flatMap, List.flatMap_eq_nil_iff]
  exact fun _ _ => rfl

/-- The effects that make the methods for the flags in a field, in rounds over the enumerators. -/
def flagRounds (u : FlagUse) : List Effect :=
  let n := x.settings.names
  let each (accessors : Enumerator → List FlagAccessor) : List Effect :=
    u.enumeration.enumerators.flatMap fun y => flagAccessorPlan c i f u.enumeration onChange y (accessors y)
  (u.enumeration.enumerators.flatMap fun y =>
      Effect.declareFlag ⟨y.name, f.name, u.enumeration.fullName ++ "." ++ y.name, []⟩ ::
        flagAccessorPlan c i f u.enumeration onChange y (FlagAccessor.tests n u.nots y)) ++
    if u.writes then
      each (FlagAccessor.setters n u.nots) ++ each (FlagAccessor.unsetters n) ++ each (FlagAccessor.togglers n)
    else []

theorem flagsAfter_flagRounds (fs : List DeclaredFlag) {u : FlagUse}
    (hnames : (u.enumeration.enumerators.map (·.name)).Nodup) :
    flagsAfter fs (flagRounds x c i f onChange u) = fs ++ fieldFlags x c i f onChange u := by
  unfold flagRounds fieldFlags FlagUse.accessors
  rw [flagsAfter_append, flagsAfter_declared]
  cases u.writes with
  | false =>
      simp only [Bool.false_eq_true, if_false, List.append_nil]
      rfl
  | true =>
      rw [if_pos rfl, flagsAfter_append, flagsAfter_append, flagsAfter_attached c i f _ onChange fs hnames,
        flagsAfter_attached c i f _ onChange fs hnames, flagsAfter_attached c i f _ onChange fs hnames]
      simp only [if_true, List.append_assoc]

theorem warnings_flagRounds (u : FlagUse) :
    (flagRounds x c i f onChange u).filterMap (Effect.warning? c) = [] := by
  have heach : ∀ accessors : Enumerator → List FlagAccessor, (u.enumeration.enumerators.flatMap fun y =>
      flagAccessorPlan c i f u.enumeration onChange y (accessors y)).filterMap (Effect.warning? c) = [] := by
    intro accessors
    rw [List.filterMap_flatMap, List.flatMap_eq_nil_iff]
    exact fun y _ => warnings_flagAccessorPlan c i f u.enumeration onChange y (accessors y)
  have hfirst : (u.enumeration.enumerators.flatMap fun y =>
      Effect.declareFlag ⟨y.name, f.name, u.enumeration.fullName ++ "." ++ y.name, []⟩ ::
        flagAccessorPlan c i f u.enumeration onChange y
          (FlagAccessor.tests x.settings.names u.nots y)).filterMap (Effect.warning? c) = [] := by
    rw [List.filterMap_flatMap, List.flatMap_eq_nil_iff]
    intro y _
    exact warnings_flagAccessorPlan c i f u.enumeration onChange y (FlagAccessor.tests x.settings.names u.nots y)
  unfold flagRounds
  dsimp only
  rw [List.filterMap_append, hfirst, List.nil_append]
  split
  · rw [List.filterMap_append, List.filterMap_append, heach, heach, heach]
    rfl
  · rfl

theorem isQuiet_writing {n : Int} {g : Effect} (hg : g.isQuiet = true) : (writing n g).isQuiet = true := by
  rcases writing_eq_or n g with h | h
  · rw [h, hg]
  · rw [h]
    rfl

theorem quiet_flagAssertions : (flagAssertions f e).all Effect.isQuiet = true := by
  unfold flagAssertions
  split
  · rfl
  · rw [List.all_cons, List.all_cons, isQuiet_writing rfl]
    rfl

/-- What is planned for a field that holds flags declares them and warns, and all their values are bits. -/
theorem flagsAfter_flagFieldPlan {u : FlagUse} (hfail : ∀ g, .fail g ∉ flagFieldPlan x c i f onChange u)
    (hnames : (u.enumeration.enumerators.map (·.name)).Nodup) :
    (∀ y ∈ u.enumeration.enumerators, isNoBit y.value = false) ∧
      (∀ fs, flagsAfter fs (flagFieldPlan x c i f onChange u) = fs ++ fieldFlags x c i f onChange u) ∧
      (flagFieldPlan x c i f onChange u).filterMap (Effect.warning? c) = fieldWarnings c f u := by
  have hplan : ∃ quiet rest, quiet.all Effect.isQuiet = true ∧
      flagFieldPlan x c i f onChange u = quiet ++ (if u.enumeration.isConsecutive then []
        else
          [Effect.note (.field i) (.warning "Non-Consecutive Flags" (gapsMessage u.enumeration)),
            .warn f.line (gapsMessage u.enumeration)]) ++ rest ∧
      (∀ y, u.enumeration.enumerators.find? (isNoBit ·.value) = some y → ∃ g, Effect.fail g ∈ rest) ∧
      (u.enumeration.enumerators.find? (isNoBit ·.value) = none → rest = flagRounds x c i f onChange u) := by
    refine ⟨_, _, ?_, rfl, fun y hy => ?_, fun hnone => ?_⟩
    · rw [List.all_append, quiet_flagAssertions]
      rfl
    · obtain ⟨g, hg⟩ := exists_writing_fail y.value
        (c.fieldFault f (.flagOutOfRange y.name u.enumeration.fullType y.value))
      simp only [hy, hg]
      exact ⟨g, List.mem_singleton_self _⟩
    · rw [hnone]
      rfl
  obtain ⟨quiet, rest, hquiet, hplan, hbad, hgood⟩ := hplan
  rw [hplan] at hfail ⊢
  cases hbit : u.enumeration.enumerators.find? (isNoBit ·.value) with
  | some y =>
      obtain ⟨g, hg⟩ := hbad y hbit
      exact absurd (List.mem_append_right _ hg) (hfail g)
  | none =>
      obtain rfl := hgood hbit
      refine ⟨fun y hy => by simpa using List.find?_eq_none.mp hbit y hy, fun fs => ?_, ?_⟩
      · rw [flagsAfter_append, flagsAfter_append, flagsAfter_quiet hquiet,
          flagsAfter_flagRounds x c i f onChange _ hnames]
        congr 1
        split <;> rfl
      · rw [List.filterMap_append, List.filterMap_append, warnings_quiet hquiet, warnings_flagRounds, List.append_nil,
          List.nil_append]
        unfold fieldWarnings
        split <;> rfl

theorem fieldPlan_yields : Yields (fieldPlan x c i f) fun es => ∃ fs gs, es = fs ++ gs ∧
    fs.all Effect.isQuiet = true ∧ gs = plannedEffects (flagPlan x c i f f.onChange) := by
  refine .bind (.any _) fun traits _ => .bind (.any _) fun property _ => .bind Bearer.string?_yields fun s hs => ?_
  have hcode : s.getD "" = f.onChange := congrArg (·.getD "") hs
  refine .pure ⟨_, _, rfl, ?_, by rw [hcode]⟩
  simp only [accessorPlan, List.all_append, apply_ite (List.all · Effect.isQuiet), quiet_notes, List.all_cons,
    List.all_nil, Effect.isQuiet, Bool.and_true, ite_self]

/-- Two enumerators of one name would have tests in one role. -/
theorem nodup_names_of_keys {u : FlagUse} (h : ((flagMethods x c i f onChange u).map Method.key?).Nodup) :
    (u.enumeration.enumerators.map (·.name)).Nodup := by
  have hsub : ∀ {α β : Type} (g : α → β) (k : α → List β) (l : List α),
      (l.map g).Sublist (l.flatMap fun a => g a :: k a) := by
    intro α β g k l
    induction l with
    | nil => exact .slnil
    | cons a l ih => exact (ih.trans (List.sublist_append_right _ _)).cons_cons _
  have htests := (hsub (fun y => flagMethod c i f onChange u.enumeration y
    ⟨"FlagGetter", x.settings.names.test ++ y.name, .test⟩) _ u.enumeration.enumerators).trans
      (List.sublist_append_left _ _ : List.Sublist _ (flagMethods x c i f onChange u))
  have hkeys := h.sublist (htests.map Method.key?)
  rw [List.map_map] at hkeys
  refine List.Nodup.of_map (fun name =>
    some (Origin.field i, "FlagGetter" ++ "." ++ u.enumeration.fullName ++ "." ++ name)) ?_
  rw [List.map_map]
  exact hkeys

theorem flagsAfter_fieldPlan (hfail : ∀ g, .fail g ∉ plannedEffects (fieldPlan x c i f))
    {ms : List Method} (hms : fieldMethods x c i f = .ok ms) (hkeys : (ms.map Method.key?).Nodup) :
    ∃ o, c.flagUse? x f = .ok o ∧
      (∀ u ∈ o, ∀ y ∈ u.enumeration.enumerators, isNoBit y.value = false) ∧
      (∀ fs, flagsAfter fs (plannedEffects (fieldPlan x c i f)) =
        fs ++ o.toList.flatMap (fieldFlags x c i f f.onChange)) ∧
      (plannedEffects (fieldPlan x c i f)).filterMap (Effect.warning? c) = o.toList.flatMap (fieldWarnings c f) := by
  obtain ⟨o, ho, rfl⟩ := fieldMethods_yields x c i f ms hms
  obtain ⟨es, hplan⟩ := exists_of_plannedEffects hfail
  obtain ⟨quiet, gs, rfl, hquiet, hgs⟩ := fieldPlan_yields x c i f es hplan
  rw [hplan, plannedEffects_ok] at hfail ⊢
  refine ⟨o, ho, ?_⟩
  cases o with
  | none =>
      have hnone : gs = [] := by
        rw [hgs]
        unfold flagPlan
        rw [ho]
        rfl
      rw [hnone, List.append_nil, warnings_quiet hquiet, Option.toList_none, List.flatMap_nil, List.flatMap_nil]
      refine ⟨fun u hu => absurd hu (Option.not_mem_none u), fun fs => ?_, rfl⟩
      rw [flagsAfter_quiet hquiet, List.append_nil]
  | some u =>
      have hsome : gs = flagFieldPlan x c i f f.onChange u := by
        rw [hgs]
        unfold flagPlan
        rw [ho]
        rfl
      have hmethods : ((flagMethods x c i f f.onChange u).map Method.key?).Nodup := by
        refine hkeys.sublist (.map _ ?_)
        rw [Option.toList_some, List.flatMap_singleton]
        exact List.sublist_append_right _ _
      obtain ⟨hbits, hflags, hwarnings⟩ := flagsAfter_flagFieldPlan x c i f f.onChange
        (fun g hg => hfail g (List.mem_append_right _ (hsome ▸ hg))) (nodup_names_of_keys x c i f f.onChange hmethods)
      rw [Option.toList_some, List.flatMap_singleton, List.flatMap_singleton, List.filterMap_append,
        warnings_quiet hquiet, hsome]
      refine ⟨?_, fun fs => ?_, hwarnings⟩
      · intro t ht
        rw [← Option.mem_some_iff.mp ht]
        exact hbits
      · rw [flagsAfter_append, flagsAfter_quiet hquiet, hflags]

end Class

/-! ### Which methods there are -/

namespace FlagUse

/-- The names of the methods for a flag.  Each verb is in front of the name of the enumerator and of the name of its
opposite; an enumerator without an opposite may have its complement tested and set instead. -/
def methodNames (n : NameParts) (u : FlagUse) (y : Enumerator) : List String :=
  let verbs := if u.writes then [n.test, n.setter, n.unset, n.toggle] else [n.test]
  verbs.map (· ++ y.name) ++
    if y.opposite.isEmpty then if u.nots then [n.testNot ++ y.name, n.setNot ++ y.name] else []
    else verbs.map (· ++ y.opposite)

variable (n : NameParts) {u : FlagUse}

theorem map_name_accessors_perm (hu : u.nots = true → u.writes = true) (y : Enumerator) :
    ((u.accessors n y).map (·.name)).Perm (u.methodNames n y) := by
  refine List.perm_iff_count.mpr fun s => ?_
  unfold accessors methodNames FlagAccessor.tests FlagAccessor.setters FlagAccessor.unsetters FlagAccessor.togglers
    FlagAccessor.pair
  cases hwrites : u.writes with
  | false =>
      have hnots : u.nots = false := by
        cases h : u.nots with
        | false => rfl
        | true => exact absurd (hu h) (by simp [hwrites])
      rw [hnots]
      split <;> simp
  | true =>
      cases u.nots with
      | false => split <;> simp [List.count_cons]; omega
      | true => split <;> simp [List.count_cons] <;> omega

theorem length_flatMap_methodNames (hu : u.nots = true → u.writes = true) (ys : List Enumerator) :
    let k := ys.countP (!·.opposite.isEmpty)
    (ys.flatMap (u.methodNames n)).length =
      if u.writes then 4 * ys.length + 4 * k + (if u.nots then 2 * (ys.length - k) else 0) else ys.length + k := by
  induction ys with
  | nil => simp
  | cons y ys ih =>
      have hle : ys.countP (!·.opposite.isEmpty) ≤ ys.length := List.countP_le_length
      dsimp only at ih ⊢
      rw [List.flatMap_cons, List.length_append, ih]
      unfold methodNames
      cases hwrites : u.writes with
      | false =>
          have hnots : u.nots = false := Bool.eq_false_iff.mpr fun h => by simp [hu h] at hwrites
          cases hopposite : y.opposite.isEmpty <;> simp [hopposite, hnots] <;> omega
      | true =>
          cases u.nots <;> cases hopposite : y.opposite.isEmpty <;> simp [hopposite] <;> omega

/-! ### The flags of a derived class -/

/-- What there is of a field `f` in a derived class, where `c` is the class before: the methods `ms` for its flags,
the declared flags `group`, and the warnings `notice`.  Each enumerator has a declared flag, and these split the methods
among them; all values are bits of a word, and there is a warning if they are not consecutive. -/
structure Synthesizes (u : FlagUse) (n : NameParts) (c : Class) (f : Field) (ms : List Method)
    (group : List DeclaredFlag) (notice : List Diagnostic) : Prop where
  names : (ms.map (·.name)).Perm (u.enumeration.enumerators.flatMap (u.methodNames n))
  count : ms.length =
    let n := u.enumeration.enumerators.length
    let k := u.enumeration.enumerators.countP (!·.opposite.isEmpty)
    if u.writes then 4 * n + 4 * k + (if u.nots then 2 * (n - k) else 0) else n + k
  entries : group.map (fun g => (g.name, g.field, g.enumerator)) =
    u.enumeration.enumerators.map fun y => (y.name, f.name, u.enumeration.fullName ++ "." ++ y.name)
  own : List.Forall₂ (fun g y => (g.methods.map (·.name)).Perm (u.methodNames n y)) group u.enumeration.enumerators
  parts : (group.flatMap (·.methods)).Perm (ms.map Method.link)
  apart : (group.flatMap (·.methods)).Nodup
  bits : ∀ y ∈ u.enumeration.enumerators, 0 ≤ y.value ∧ y.value < 64
  warns : notice = [] ∨ notice = [c.warningAt f.line (Class.gapsMessage u.enumeration)]
  quiet : notice = [] ↔ ∀ (j : Nat) (h : j + 1 < u.enumeration.values.length),
    u.enumeration.values[j + 1] = u.enumeration.values[j] + 1

end FlagUse

namespace Class

variable {x : PlanContext} {c : Class} {i : Nat} {f : Field}

theorem filter_isForFlagOf {ms : List Method} (hms : fieldMethods x c i f = .ok ms) :
    ∃ o, c.flagUse? x f = .ok o ∧
      ms.filter (·.isForFlagOf i) = o.toList.flatMap (flagMethods x c i f f.onChange) := by
  obtain ⟨o, ho, rfl⟩ := fieldMethods_yields x c i f ms hms
  refine ⟨o, ho, ?_⟩
  have hgetter : (if f.flags.has .noGetter then [] else [getterMethod x c i f]).filter (·.isForFlagOf i) = [] := by
    split
    · rfl
    · exact List.filter_cons_of_neg (Bool.eq_false_iff.mp (isForFlagOf_synthesize c "Getter" _))
  have hsetter : (if f.flags.has .noSetter then [] else [setterMethod x c i f f.onChange]).filter
      (·.isForFlagOf i) = [] := by
    split
    · rfl
    · exact List.filter_cons_of_neg (Bool.eq_false_iff.mp (isForFlagOf_synthesize c "Setter" _))
  rw [List.filter_append, List.filter_append, hgetter, hsetter]
  refine List.filter_eq_self.mpr fun m hm => ?_
  obtain ⟨u, -, hm⟩ := List.mem_flatMap.mp hm
  obtain ⟨y, -, hm⟩ := List.mem_flatMap.mp ((flagMethods_perm x c i f f.onChange u).mem_iff.mp hm)
  obtain ⟨a, -, rfl⟩ := List.mem_map.mp hm
  exact (isForFlagOf_synthesize c _ _).trans (decide_eq_true (a.roleFor_not_mem u.enumeration y))

/-- The methods for the flags in a field and its declared flags are those that its attributes ask for. -/
theorem synthesizes_flagMethods {u : FlagUse} (hu : f.HoldsFlags x u)
    (hkeys : ((flagMethods x c i f f.onChange u).map Method.key?).Nodup)
    (hbits : ∀ y ∈ u.enumeration.enumerators, isNoBit y.value = false) :
    u.Synthesizes x.settings.names c f (flagMethods x c i f f.onChange u) (fieldFlags x c i f f.onChange u)
      (fieldWarnings c f u) := by
  have hnots : u.nots = true → u.writes = true := fun h => (Bool.and_eq_true_iff.mp (hu.nots.symm.trans h)).1
  have hnames : ((flagMethods x c i f f.onChange u).map (·.name)).Perm
      (u.enumeration.enumerators.flatMap (u.methodNames x.settings.names)) := by
    refine ((flagMethods_perm x c i f f.onChange u).map _).trans ?_
    rw [List.map_flatMap]
    refine List.Perm.flatMap_left _ fun y _ => ?_
    rw [List.map_map]
    exact u.map_name_accessors_perm x.settings.names hnots y
  have hlinks : ((fieldFlags x c i f f.onChange u).flatMap (·.methods)).Perm
      ((flagMethods x c i f f.onChange u).map Method.link) := by
    refine .trans ?_ ((flagMethods_perm x c i f f.onChange u).map Method.link).symm
    rw [List.map_flatMap, fieldFlags, List.flatMap_map]
    refine List.Perm.flatMap_left _ fun y _ => ?_
    rw [List.map_map]
    rfl
  refine ⟨hnames, ?_, ?_, ?_, hlinks, ?_, ?_, ?_, ?_⟩
  · rw [← u.length_flatMap_methodNames x.settings.names hnots, ← hnames.length_eq, List.length_map]
  · rw [fieldFlags, List.map_map]
    rfl
  · rw [fieldFlags, List.forall₂_map_left_iff]
    refine List.forall₂_same.mpr fun y _ => ?_
    show ((((u.accessors x.settings.names y).map fun a =>
      (flagMethod c i f f.onChange u.enumeration y a).link).map (·.name))).Perm _
    rw [List.map_map]
    exact u.map_name_accessors_perm x.settings.names hnots y
  · refine hlinks.nodup_iff.mpr (List.Nodup.of_map
      (fun l : MethodLink => l.synthesis.map fun s => (s.origin, s.role)) ?_)
    rw [List.map_map]
    exact hkeys
  · intro y hy
    have hbit := hbits y hy
    unfold isNoBit at hbit
    simp only [Bool.or_eq_false_iff, decide_eq_false_iff_not] at hbit
    omega
  · unfold fieldWarnings
    split
    · exact .inl rfl
    · exact .inr rfl
  · rw [← u.enumeration.isConsecutive_iff]
    unfold fieldWarnings
    split
    · rename_i h
      exact iff_of_true rfl h
    · rename_i h
      exact iff_of_false nofun h

theorem exists_fieldFlags (hc : c.IsDeclared) (hfault : (c.derive x).fault = none) (hf : c.fields[i]? = some f) :
    ∃ ms o, (c.derive x).result.methods.filter (·.isMadeFromField i) = ms ∧ fieldMethods x c i f = .ok ms ∧
      (ms.map Method.key?).Nodup ∧ c.flagUse? x f = .ok o ∧
      (∀ u ∈ o, ∀ y ∈ u.enumeration.enumerators, isNoBit y.value = false) ∧
      (∀ fs, flagsAfter fs (plannedEffects (fieldPlan x c i f)) =
        fs ++ o.toList.flatMap (fieldFlags x c i f f.onChange)) ∧
      (plannedEffects (fieldPlan x c i f)).filterMap (Effect.warning? c) =
        o.toList.flatMap (fieldWarnings c f) := by
  obtain ⟨ms, hms, hfilter, hkeys⟩ := exists_fieldMethods hc hfault hf
  obtain ⟨choices, w, -, hrun, -⟩ := exists_run_of_derive hfault
  have hfail : ∀ g, .fail g ∉ plannedEffects (fieldPlan x c i f) := fun g hg =>
    ClassWork.ne_fail_of_run hrun g (List.mem_append_right _
      (List.mem_flatMap.mpr ⟨(f, i), List.mk_mem_zipIdx_iff_getElem?.mpr hf, hg⟩))
  obtain ⟨o, ho, hbits, hflags, hwarnings⟩ := flagsAfter_fieldPlan x c i f hfail hms hkeys
  exact ⟨ms, o, hfilter, hms, hkeys, ho, hbits, hflags, hwarnings⟩

/-- In a class that is derived without a fault, the plan of a field leaves declared flags and warnings behind those of
the class, and with the methods for the flags of the field these are what the attributes of the field ask for. -/
theorem exists_group (hc : c.IsDeclared) (hfault : (c.derive x).fault = none) (hf : c.fields[i]? = some f) :
    ∃ group notice,
      (∀ fs, flagsAfter fs (plannedEffects (fieldPlan x c i f)) = fs ++ group) ∧
      (plannedEffects (fieldPlan x c i f)).filterMap (Effect.warning? c) = notice ∧
      let ms := (c.derive x).result.methods.filter (·.isForFlagOf i)
      (f.attribute? .flags = none → f.attribute? .flagGetters = none → ms = [] ∧ group = [] ∧ notice = []) ∧
        ∀ u, f.HoldsFlags x u → u.Synthesizes x.settings.names c f ms group notice := by
  obtain ⟨ms, o, hfilter, hms, hkeys, ho, hbits, hadd, hwarn⟩ := exists_fieldFlags hc hfault hf
  obtain ⟨p, hp, hkept⟩ := filter_isForFlagOf hms
  obtain rfl : o = p := Except.ok.inj (ho.symm.trans hp)
  have hmethods : (c.derive x).result.methods.filter (·.isForFlagOf i) = ms.filter (·.isForFlagOf i) := by
    rw [← hfilter, List.filter_filter]
    exact List.filter_congr fun m _ => (Bool.and_eq_left_iff_imp.mpr m.isMadeFromField_of_isForFlagOf).symm
  obtain ⟨hnone, hsome⟩ := flagUse?_yields x c f o ho
  refine ⟨_, _, hadd, hwarn, ?_⟩
  rw [hmethods]
  refine ⟨fun hw hr => ?_, fun u hu => ?_⟩
  · rw [hkept, hnone ⟨hw, hr⟩]
    exact ⟨rfl, rfl, rfl⟩
  · obtain rfl := hsome u hu
    rw [Option.toList_some, List.flatMap_singleton] at hkept
    rw [hkept, Option.toList_some, List.flatMap_singleton, List.flatMap_singleton]
    have hsub : (flagMethods x c i f f.onChange u).Sublist ms := hkept ▸ List.filter_sublist
    exact synthesizes_flagMethods hu (hkeys.sublist (hsub.map _)) (hbits u rfl)

/-- Flags of a class that is derived without a fault.  Its declared flags and the warnings that its derivation adds
come from its fields, in their order.  A field whose attributes name no enum brings nothing and has no methods for
flags; one that holds the flags of an enum has the methods, declared flags and warnings that its attributes and the enum
ask for. -/
theorem derive_flags {r : Reader} {path : SourcePath} {text : String} {h : Header} (hread : r.read path text = .ok h)
    (hc : c ∈ h.classes) (hfault : (c.derive x).fault = none) :
    let d := (c.derive x).result
    ∃ (groups : List (List DeclaredFlag)) (notices : List (List Diagnostic)),
      d.declaredFlags = groups.flatten ∧ (c.derive x).warnings = notices.flatten ∧
      groups.length = c.fields.length ∧ notices.length = c.fields.length ∧
      ∀ i f, c.fields[i]? = some f → ∃ group notice, groups[i]? = some group ∧ notices[i]? = some notice ∧
        let ms := d.methods.filter (·.isForFlagOf i)
        (f.attribute? .flags = none → f.attribute? .flagGetters = none → ms = [] ∧ group = [] ∧ notice = []) ∧
        ∀ u, f.HoldsFlags x u → u.Synthesizes x.settings.names c f ms group notice := by
  intro d
  have hdeclared := Reader.isDeclared_of_mem_read hread hc
  obtain ⟨choices, w, hchoices, hrun, hmember, hresult⟩ := exists_run_of_derive hfault
  have hfail := ClassWork.ne_fail_of_run hrun
  obtain ⟨plain, hplain, hplan⟩ := exists_plain_plan hfail
  have hquiet := quiet_of_plain hplain
  obtain ⟨hflags, hwarnings⟩ := ClassWork.flags_run hrun
  rw [hplan] at hflags hwarnings
  rw [flagsAfter_append, flagsAfter_quiet hquiet] at hflags
  refine ⟨c.fields.zipIdx.map fun p => flagsAfter [] (plannedEffects (fieldPlan x c p.2 p.1)),
    c.fields.zipIdx.map fun p => (plannedEffects (fieldPlan x c p.2 p.1)).filterMap (Effect.warning? c),
    ?_, ?_, by simp, by simp, ?_⟩
  · have hd : d.declaredFlags = w.owner.declaredFlags := congrArg (·.declaredFlags) hresult
    rw [hd, hflags, (Reader.readFrom_of_mem_classes hread hc).declaredFlags,
      flagsAfter_flatMap (k := fun p => flagsAfter [] (plannedEffects (fieldPlan x c p.2 p.1))) ?_ [], List.nil_append,
      List.flatMap_def]
    intro p hp fs
    obtain ⟨group, notice, hadd, -⟩ := exists_group hdeclared hfault (List.mk_mem_zipIdx_iff_getElem?.mp hp)
    rw [hadd, hadd, List.nil_append]
  · have hd : (c.derive x).warnings = w.warnings := by
      unfold derive
      simp only [hchoices, hrun, hmember]
    rw [hd, hwarnings, List.filterMap_append, warnings_quiet hquiet, List.filterMap_flatMap, List.flatMap_def]
    rfl
  · intro i f hf
    obtain ⟨group, notice, hadd, hwarn, hms⟩ := exists_group hdeclared hfault hf
    refine ⟨group, notice, ?_, ?_, hms⟩
    · rw [List.getElem?_map, List.getElem?_zipIdx, hf, ← List.nil_append group, ← hadd]
      simp
    · rw [List.getElem?_map, List.getElem?_zipIdx, hf, ← hwarn]
      simp

/-- An enum with a gap between its two flags, of which one has an opposite. -/
def twoFlags : Enumeration :=
  { name := "Color"
    enumerators := [{ name := "Red", value := 1, opposite := "Pale" }, { name := "Green", value := 3 }] }

theorem exists_twoFlags :
    ∃ (h : Header) (c : Class) (f : Field),
      (Reader.ofSettings {}).read ⟨.relative, ["Unit.h"]⟩
          ("RClass()\nstruct Unit \x7b\nRBody();\nRField(Flags = Color, FlagNots)\nint mColors;\n\x7d;") = .ok h ∧
        c ∈ h.classes ∧ (c.derive ⟨{}, fun _ => some twoFlags⟩).fault = none ∧ c.fields[0]? = some f ∧
        f.HoldsFlags ⟨{}, fun _ => some twoFlags⟩ ⟨twoFlags, true, true⟩ := by
  have hrun : ((Reader.ofSettings {}).read ⟨.relative, ["Unit.h"]⟩
      ("RClass()\nstruct Unit \x7b\nRBody();\nRField(Flags = Color, FlagNots)\nint mColors;\n\x7d;")
      |>.toOption.any fun h => h.classes.any fun c =>
        (c.derive ⟨{}, fun _ => some twoFlags⟩).fault.isNone &&
        c.fields.map (fun f => ((f.attribute? .flags).bind Value.string?, (f.attribute? .flagNots).bind Value.bool?)) ==
          [(some "Color", some true)]) = true := by
    rw [Reader.read_ofList]
    decide +kernel
  obtain ⟨h, hread, hrun⟩ := Checked.exists_ok_of_any hrun
  obtain ⟨c, hc, hderived⟩ := List.any_eq_true.mp hrun
  obtain ⟨hfault, hfields⟩ := Bool.and_eq_true_iff.mp hderived
  obtain ⟨f, hf, hattributes⟩ := Option.map_eq_some_iff.mp
    ((List.getElem?_map (l := c.fields)).symm.trans (congrArg (·[0]?) (beq_iff_eq.mp hfields)))
  obtain ⟨hflags, hnots⟩ := Prod.mk.inj hattributes
  obtain ⟨v, hv, hstring⟩ := Option.bind_eq_some_iff.mp hflags
  obtain ⟨b, hb, hbool⟩ := Option.bind_eq_some_iff.mp hnots
  obtain rfl : v = .str "Color" := by cases v <;> simp_all [Value.string?]
  obtain rfl : b = .bool true := by cases b <;> simp_all [Value.bool?]
  exact ⟨h, c, f, hread, hc, Option.isNone_iff_eq_none.mp hfault, hf, ⟨"Color", hv, rfl⟩, by rw [hb]; rfl⟩

/-- Two flags of which one has an opposite and the other has its complement tested and set, with a gap between them. -/
theorem derive_flags_gap :
    ∃ (h : Header) (c : Class) (f : Field) (group : List DeclaredFlag) (notice : List Diagnostic),
      let d := (c.derive ⟨{}, fun _ => some twoFlags⟩).result
      (Reader.ofSettings {}).read ⟨.relative, ["Unit.h"]⟩
          ("RClass()\nstruct Unit \x7b\nRBody();\nRField(Flags = Color, FlagNots)\nint mColors;\n\x7d;") = .ok h ∧
        c ∈ h.classes ∧ (c.derive ⟨{}, fun _ => some twoFlags⟩).fault = none ∧
        FlagUse.Synthesizes ⟨twoFlags, true, true⟩ {} c f (d.methods.filter (·.isForFlagOf 0)) group notice ∧
        (d.methods.filter (·.isForFlagOf 0)).length = 14 ∧ notice ≠ [] := by
  obtain ⟨h, c, f, hread, hc, hfault, hf, hholds⟩ := exists_twoFlags
  obtain ⟨groups, notices, -, -, -, -, heach⟩ := derive_flags hread hc hfault
  obtain ⟨group, notice, -, -, -, hsome⟩ := heach 0 f hf
  have hu := hsome _ hholds
  refine ⟨h, c, f, group, notice, hread, hc, hfault, hu, hu.count, fun hnone => ?_⟩
  have hgap : (3 : Int) = 1 + 1 := hu.quiet.mp hnone 0 (show 0 + 1 < 2 by decide)
  exact absurd hgap (by decide)

end Class
end HeaderReflection
