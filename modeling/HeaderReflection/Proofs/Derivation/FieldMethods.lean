import HeaderReflection.Proofs.Derivation.Redefinitions
import HeaderReflection.Proofs.Source.FieldParts
import Mathlib.Data.List.Forall2
import Mathlib.Data.List.Perm.Basic

/-! # The methods made from one field

The attributes and flags of a field ask for methods: a getter and a setter, and for a field that holds the
flags of an enum also methods that test and change these flags.  The plan of a class makes them in between
those for other members and in several rounds.  This module says which methods of a derived class are from one
field, and in which order.

* What the field asks for is read from its bag, for a header that was accepted without a fault
  (`Field.attribute?`, `Field.HoldsFlags`).
* `fieldMethods` are the methods that are planned for a field.  They are its accessors and behind them the
  methods for its flags, which enumerator by enumerator are those of `FlagUse.accessors`
  (`Class.flagMethods_perm`).
* In a class that is derived without a fault, the methods made from the field are just these, in their order
  and each in a role of its own (`Class.exists_fieldMethods`).

That the roles are different is not a property of the plan: two enumerators of one name would have methods in
one role, and then the derivation fails. -/

namespace HeaderReflection

open Checked

/-! ### Attributes of a field -/

namespace Bearer

variable {b : Bearer} {a : Attribute}

theorem lookup?_yields (isEnum : String → Bool) : Yields (b.lookup? isEnum a) fun o => o = b.find? a := by
  intro o h
  unfold lookup? at h
  split at h
  · rename_i hnone
    exact (Except.ok.inj h).symm.trans hnone.symm
  · rename_i v hv
    split at h
    · exact (Except.ok.inj h).symm.trans hv.symm
    · cases h

theorem map_lookup?_yields {α : Type} (isEnum : String → Bool) (g : Option Value → α) :
    Yields ((b.lookup? isEnum a).map g) fun v => v = g (b.find? a) := by
  intro v h
  cases ho : b.lookup? isEnum a with
  | error f =>
      rw [ho] at h
      cases h
  | ok o =>
      rw [ho] at h
      rw [← lookup?_yields isEnum o ho]
      exact (Except.ok.inj h).symm

theorem string?_yields : Yields (b.string? a) fun s => s = (b.find? a).bind Value.string? :=
  map_lookup?_yields b.isEnum _

theorem bool?_yields : Yields (b.bool? a) fun t => t = (b.find? a).bind Value.bool? :=
  map_lookup?_yields b.isEnum _

theorem bool_yields : Yields (b.bool a) fun t => t = (((b.find? a).getD a.default).bool?).getD false := by
  intro t h
  unfold bool at h
  cases hv : b.lookup b.isEnum a with
  | error f =>
      rw [hv] at h
      cases h
  | ok v =>
      rw [hv] at h
      rw [← map_lookup?_yields b.isEnum (·.getD a.default) v hv]
      exact (Except.ok.inj h).symm

end Bearer

/-- The value that is present for an attribute of a field. -/
def Field.attribute? (f : Field) (a : Attribute) : Option Value := (f.bearer .field {} Bearer.noEnum).find? a

/-- The code that runs when a field is changed, empty if there is none. -/
def Field.onChange (f : Field) : String := ((f.attribute? .onChange).bind Value.string?).getD ""

/-- The code that runs behind a change of a field, set apart by a blank and closed by a semicolon. -/
def Field.changeCode (f : Field) : String :=
  if f.onChange.isEmpty then ""
  else
    let code := Text.trim f.onChange.toList
    " " ++ String.ofList (if code.getLast? = some ';' then code else code ++ [';'])

theorem withOnChange_onChange (f : Field) (statement : String) :
    withOnChange statement f.onChange = statement ++ f.changeCode := by
  unfold withOnChange Field.changeCode
  split
  · exact String.append_empty.symm
  · simp [String.append_assoc]

/-- The method is made from the field at a position. -/
def Method.isMadeFromField (i : Nat) (m : Method) : Bool := m.synthesis.any (·.origin = .field i)

/-- The method is made from the field at a position, and it is not the getter or setter of the field. -/
def Method.isForFlagOf (i : Nat) (m : Method) : Bool :=
  m.synthesis.any fun s => s.origin = .field i && s.role ∉ ["Getter", "Setter"]

theorem Method.isMadeFromField_of_isForFlagOf {i : Nat} (m : Method) (h : m.isForFlagOf i = true) :
    m.isMadeFromField i = true := by
  obtain ⟨s, hs, h⟩ := (Option.any_eq_true _ _).mp h
  exact (Option.any_eq_true _ _).mpr ⟨s, hs, (Bool.and_eq_true_iff.mp h).1⟩

theorem Method.isMadeFromField_of_key {i : Nat} (m : Method) {role : String} (h : m.key? = some (.field i, role)) :
    m.isMadeFromField i = true := by
  obtain ⟨s, hs, heq⟩ := Option.map_eq_some_iff.mp h
  exact (Option.any_eq_true _ _).mpr ⟨s, hs, decide_eq_true (Prod.mk.inj heq).1⟩

theorem Reader.exists_isDeclarator {r : Reader} {path : SourcePath} {text : String} {h : Header}
    (hr : r.read path text = .ok h) {c : Class} (hc : c ∈ h.classes) :
    ∀ f ∈ c.fields, ∃ d, FieldText.IsDeclarator f.type.toList f.name.toList d := by
  refine read_classes (P := fun c => ∀ f ∈ c.fields, ∃ d, FieldText.IsDeclarator f.type.toList f.name.toList d)
    ⟨?_, ?_, ?_, ?_⟩ hr c hc
  · intro site text c _ hc f hf
    obtain ⟨_, -, hc⟩ := classOf_makes site text c hc
    rw [hc.fields] at hf
    exact absurd hf List.not_mem_nil
  · intro c line hc
    exact hc
  · intro site access text c f _ hc hf g hg
    rcases List.mem_append.mp hg with hg | hg
    · exact hc g hg
    · obtain rfl := List.mem_singleton.mp hg
      obtain ⟨_, -, _, d, _, _, -, -, hdeclarator, -⟩ := fieldOf_declares site c access text g hf
      exact ⟨d, hdeclarator⟩
  · intro site access text c d m _ hc hm hd
    obtain ⟨ps, rfl⟩ := claimProperties_yields c m d hd
    exact hc

/-! ### The flags of a field -/

/-- The accessors of an enumerator in a field that holds flags. -/
def FlagUse.accessors (n : NameParts) (u : FlagUse) (y : Enumerator) : List FlagAccessor :=
  FlagAccessor.tests n u.nots y ++
    if u.writes then
      FlagAccessor.setters n u.nots y ++ FlagAccessor.unsetters n y ++ FlagAccessor.togglers n y
    else []

theorem FlagAccessor.roleFor_not_mem (e : Enumeration) (y : Enumerator) (a : FlagAccessor) :
    a.roleFor e y ∉ ["Getter", "Setter"] := by
  have hdot : '.' ∈ (a.roleFor e y).toList := by simp [FlagAccessor.roleFor]
  intro hrole
  rcases List.mem_cons.mp hrole with hrole | hrole
  · exact absurd (hrole ▸ hdot) (by decide)
  · exact absurd (List.mem_singleton.mp hrole ▸ hdot) (by decide)

/-- A field says that it holds the flags of an enum: which enum, whether there are methods that write them, and
whether flags without an opposite have methods for their complement, which takes the former. -/
structure Field.HoldsFlags (f : Field) (x : PlanContext) (u : FlagUse) : Prop where
  names : ∃ name, f.attribute? (if u.writes then .flags else .flagGetters) = some (.str name) ∧
    x.enumNamed name = some u.enumeration
  nots : u.nots = (u.writes && f.attribute? .flagNots == some (.bool true))

namespace Class

variable (x : PlanContext) (c : Class)

theorem namedFlagUse_yields (f : Field) (v : Value) (writes nots : Bool) :
    Yields (namedFlagUse x c f v writes nots) fun t => ∀ (u : FlagUse) (name : String), v = .str name →
      x.enumNamed name = some u.enumeration → u.writes = writes → u.nots = nots → t = u := by
  rintro t ht ⟨e, _, _⟩ name rfl he rfl rfl
  unfold namedFlagUse at ht
  simp only [Value.string?, Option.getD_some, he] at ht
  exact (Except.ok.inj ht).symm

/-- A field holds flags just as its attributes say. -/
theorem flagUse?_yields (f : Field) : Yields (c.flagUse? x f) fun o =>
    (f.attribute? .flags = none ∧ f.attribute? .flagGetters = none → o = none) ∧
      ∀ u, f.HoldsFlags x u → o = some u := by
  refine .bind (Bearer.lookup?_yields _) fun readable hreadable => ?_
  refine .bind (Bearer.lookup?_yields _) fun writable hwritable => ?_
  refine .bind Bearer.bool_yields fun nots hnots => ?_
  have hr : f.attribute? .flagGetters = readable := hreadable.symm
  have hw : f.attribute? .flags = writable := hwritable.symm
  have hnots : (f.attribute? .flagNots == some (.bool true)) = nots := by
    rw [hnots]
    show _ = (((f.attribute? .flagNots).getD (.bool false)).bool?).getD false
    cases f.attribute? .flagNots with
    | none => rfl
    | some v => cases v <;> simp [Value.bool?, Bool.beq_eq_decide_eq]
  rw [hr, hw]
  cases readable with
  | none =>
      cases writable with
      | none =>
          refine .pure ⟨fun _ => rfl, fun u hu => ?_⟩
          obtain ⟨name, hv, -⟩ := hu.names
          rw [apply_ite f.attribute?, hr, hw, ite_self] at hv
          cases hv
      | some v =>
          refine .bind (namedFlagUse_yields x c f v true nots) fun t ht => .pure
            ⟨fun h => absurd h.1 (Option.some_ne_none v), fun u hu => ?_⟩
          obtain ⟨name, hv, he⟩ := hu.names
          have hn := hu.nots
          cases hwrites : u.writes with
          | false => simp [hwrites, hr] at hv
          | true =>
              rw [hwrites, if_pos rfl, hw] at hv
              rw [hwrites, Bool.true_and, hnots] at hn
              exact congrArg some (ht u name (Option.some.inj hv) he hwrites hn)
  | some v =>
      cases writable with
      | none =>
          refine .bind (namedFlagUse_yields x c f v false false) fun t ht => .pure
            ⟨fun h => absurd h.2 (Option.some_ne_none v), fun u hu => ?_⟩
          obtain ⟨name, hv, he⟩ := hu.names
          have hn := hu.nots
          cases hwrites : u.writes with
          | true => simp [hwrites, hw] at hv
          | false =>
              rw [hwrites, if_neg Bool.false_ne_true, hr] at hv
              rw [hwrites, Bool.false_and] at hn
              exact congrArg some (ht u name (Option.some.inj hv) he hwrites hn)
      | some w => exact .throw _

theorem isForFlagOf_synthesize {i : Nat} {f : Field} (role : String) (d : MethodDraft) :
    (c.synthesize ⟨.field i, role, f.line⟩ d).isForFlagOf i = decide (role ∉ ["Getter", "Setter"]) := by
  show (decide (Origin.field i = .field i) && decide (role ∉ ["Getter", "Setter"])) = _
  rw [decide_eq_true rfl, Bool.true_and]

theorem body_flagMethod (i : Nat) (f : Field) (e : Enumeration) (y : Enumerator) (a : FlagAccessor) :
    (flagMethod c i f f.onChange e y a).body = a.op.statement f.name (FlagAccessor.bitLiteral f.type y.value.toNat) ++
      if a.op.isWrite then f.changeCode else "" := by
  show (if a.op.isWrite then withOnChange _ f.onChange else _) = _
  split
  · exact withOnChange_onChange f _
  · exact String.append_empty.symm

/-- Enumerator by enumerator, the methods for the flags in a field are the accessors of the enumerators. -/
theorem flagMethods_perm (i : Nat) (f : Field) (onChange : String) (u : FlagUse) :
    (flagMethods x c i f onChange u).Perm (u.enumeration.enumerators.flatMap fun y =>
      (u.accessors x.settings.names y).map (flagMethod c i f onChange u.enumeration y)) := by
  unfold flagMethods FlagUse.accessors
  cases u.writes with
  | false => simp
  | true =>
      simp only [if_true, List.map_append]
      have hpair := fun g k => List.flatMap_append_perm (l := u.enumeration.enumerators) (β := Method) g k
      refine .trans (.append_left _ ?_) (hpair _ _)
      exact ((hpair _ _).append_right _).trans (hpair _ _)

/-! ### The methods of a field -/

theorem fieldMethods_yields (i : Nat) (f : Field) : Yields (fieldMethods x c i f) fun ms =>
    ∃ o, c.flagUse? x f = .ok o ∧
      ms = (if f.flags.has .noGetter then [] else [getterMethod x c i f]) ++
        (if f.flags.has .noSetter then [] else [setterMethod x c i f f.onChange]) ++
        o.toList.flatMap (flagMethods x c i f f.onChange) := by
  refine .bind Bearer.string?_yields fun s hs => ?_
  intro ms h
  obtain ⟨o, ho, h⟩ := bind_eq_ok.mp h
  obtain rfl := pure_eq_ok.mp h
  have hcode : s.getD "" = f.onChange := congrArg (·.getD "") hs
  exact ⟨o, ho, by rw [hcode]⟩

/-- A method made from a field is its getter, its setter, or an accessor of one of its flags. -/
theorem cases_of_mem_fieldMethods {i : Nat} {f : Field} {ms : List Method} (h : fieldMethods x c i f = .ok ms)
    {m : Method} (hm : m ∈ ms) :
    (f.flags.has .noGetter = false ∧ m = getterMethod x c i f) ∨
      (f.flags.has .noSetter = false ∧ m = setterMethod x c i f f.onChange) ∨
      ∃ u, c.flagUse? x f = .ok (some u) ∧ ∃ y ∈ u.enumeration.enumerators,
        ∃ a ∈ u.accessors x.settings.names y, m = flagMethod c i f f.onChange u.enumeration y a := by
  obtain ⟨o, ho, rfl⟩ := fieldMethods_yields x c i f ms h
  rcases List.mem_append.mp hm with hm | hm
  · rcases List.mem_append.mp hm with hm | hm
    · split at hm
      · exact absurd hm List.not_mem_nil
      · rename_i hgetter
        exact .inl ⟨Bool.eq_false_iff.mpr hgetter, List.mem_singleton.mp hm⟩
    · split at hm
      · exact absurd hm List.not_mem_nil
      · rename_i hsetter
        exact .inr (.inl ⟨Bool.eq_false_iff.mpr hsetter, List.mem_singleton.mp hm⟩)
  · obtain ⟨u, hu, hm⟩ := List.mem_flatMap.mp hm
    obtain ⟨y, hy, hm⟩ := List.mem_flatMap.mp ((flagMethods_perm x c i f f.onChange u).mem_iff.mp hm)
    obtain ⟨a, ha, rfl⟩ := List.mem_map.mp hm
    exact .inr (.inr ⟨u, ho.trans (congrArg _ (Option.mem_toList.mp hu)), y, hy, a, ha, rfl⟩)

theorem accessor_of_key {i : Nat} {f : Field} {ms : List Method} (h : fieldMethods x c i f = .ok ms)
    {m : Method} (hm : m ∈ ms) :
    (m.key? = some (.field i, "Getter") → m = getterMethod x c i f) ∧
      (m.key? = some (.field i, "Setter") → m = setterMethod x c i f f.onChange) := by
  have hrole : ∀ {role key : String} {d : MethodDraft},
      (c.synthesize ⟨.field i, role, f.line⟩ d).key? = some (.field i, key) → role = key := fun hkey =>
    (Prod.mk.inj (Option.some.inj hkey)).2
  rcases cases_of_mem_fieldMethods x c h hm with ⟨-, rfl⟩ | ⟨-, rfl⟩ | ⟨u, -, y, -, a, -, rfl⟩
  · exact ⟨fun _ => rfl, fun hkey => absurd (hrole hkey) (by decide)⟩
  · exact ⟨fun hkey => absurd (hrole hkey) (by decide), fun _ => rfl⟩
  · have hparts := a.roleFor_not_mem u.enumeration y
    refine ⟨fun hkey => absurd (hrole hkey) fun heq => hparts ?_, fun hkey => absurd (hrole hkey) fun heq => hparts ?_⟩
    · rw [heq]
      exact List.mem_cons_self
    · rw [heq]
      exact List.mem_cons_of_mem _ List.mem_cons_self

theorem isMadeFromField_of_mem {i : Nat} {f : Field} {ms : List Method} (h : fieldMethods x c i f = .ok ms)
    {m : Method} (hm : m ∈ ms) (j : Nat) : m.isMadeFromField j = decide (i = j) := by
  have hmade : ∀ role d, (c.synthesize ⟨.field i, role, f.line⟩ d).isMadeFromField j = decide (i = j) := by
    intro role d
    simp [synthesize, Method.isMadeFromField]
  rcases cases_of_mem_fieldMethods x c h hm with ⟨-, rfl⟩ | ⟨-, rfl⟩ | ⟨u, -, y, -, a, -, rfl⟩
  · exact hmade _ _
  · exact hmade _ _
  · exact hmade _ _

end Class

theorem getElem?_of_mapM_eq_ok {ε α β : Type} {f : α → Except ε β} {l : List α} {bs : List β}
    (h : l.mapM f = .ok bs) : ∀ j : Nat, l[j]?.map f = bs[j]?.map .ok := by
  induction l generalizing bs with
  | nil =>
      obtain rfl := pure_eq_ok.mp h
      exact fun _ => rfl
  | cons a l ih =>
      rw [List.mapM_cons] at h
      obtain ⟨b, hb, h⟩ := bind_eq_ok.mp h
      obtain ⟨cs, hcs, h⟩ := bind_eq_ok.mp h
      obtain rfl := pure_eq_ok.mp h
      rintro (_ | j)
      · exact congrArg some hb
      · simpa using ih hcs j

theorem flatten_eq_of_forall_ne {α : Type} {ls : List (List α)} {i : Nat} {l : List α} (hl : ls[i]? = some l)
    (hne : ∀ j k, j ≠ i → ls[j]? = some k → k = []) : ls.flatten = l := by
  induction ls generalizing i with
  | nil => cases hl
  | cons a ls ih =>
      cases i with
      | zero =>
          obtain rfl : a = l := by simpa using hl
          have hrest : ls.flatten = [] := by
            refine List.flatten_eq_nil_iff.mpr fun k hk => ?_
            obtain ⟨j, hj⟩ := List.getElem?_of_mem hk
            exact hne (j + 1) k (Nat.succ_ne_zero j) hj
          rw [List.flatten_cons, hrest, List.append_nil]
      | succ i =>
          obtain rfl : a = [] := hne 0 a (Nat.succ_ne_zero i).symm rfl
          rw [List.flatten_cons, List.nil_append]
          exact ih hl fun j k hj hk => hne (j + 1) k (fun e => hj (Nat.succ.inj e)) hk

namespace Class

variable {x : PlanContext} {c : Class}

/-- In a class that was derived without a fault, the methods made from a field are those that the field asks for, in
their order and each in a role of its own. -/
theorem exists_fieldMethods (hc : c.IsDeclared) (hfault : (c.derive x).fault = none) {i : Nat} {f : Field}
    (hf : c.fields[i]? = some f) :
    ∃ ms, fieldMethods x c i f = .ok ms ∧ (c.derive x).result.methods.filter (·.isMadeFromField i) = ms ∧
      (ms.map Method.key?).Nodup := by
  obtain ⟨declared, made, hmade, hmethods, hstated, honce⟩ := exists_synthesized hc hfault
  obtain ⟨isSingleton, -, hmade⟩ := bind_eq_ok.mp hmade
  obtain ⟨createsProxy, -, hmade⟩ := bind_eq_ok.mp hmade
  obtain ⟨ofFields, hfields, hmade⟩ := bind_eq_ok.mp hmade
  obtain rfl := pure_eq_ok.mp hmade
  have heach : ∀ j ms, ofFields[j]? = some ms → ∃ g, c.fields[j]? = some g ∧ fieldMethods x c j g = .ok ms := by
    intro j ms hms
    have hj := getElem?_of_mapM_eq_ok hfields j
    rw [hms, List.getElem?_zipIdx, Option.map_map] at hj
    obtain ⟨g, hg, heq⟩ := Option.map_eq_some_iff.mp hj
    exact ⟨g, hg, by simpa using heq⟩
  obtain ⟨ms, hms⟩ : ∃ ms, ofFields[i]? = some ms := by
    have hi := getElem?_of_mapM_eq_ok hfields i
    rw [List.getElem?_zipIdx, hf] at hi
    obtain ⟨ms, hms, -⟩ := Option.map_eq_some_iff.mp hi.symm
    exact ⟨ms, hms⟩
  obtain ⟨g, hg, hok⟩ := heach i ms hms
  obtain rfl : f = g := Option.some.inj (hf.symm.trans hg)
  have hkept : ofFields.flatten.filter (·.isMadeFromField i) = ms := by
    rw [List.filter_flatten]
    refine flatten_eq_of_forall_ne (i := i) ?_ fun j k hj hk => ?_
    · rw [List.getElem?_map, hms, Option.map_some]
      refine congrArg some (List.filter_eq_self.mpr fun m hm => ?_)
      rw [isMadeFromField_of_mem x c hok hm, decide_eq_true rfl]
    · rw [List.getElem?_map] at hk
      obtain ⟨ks, hks, rfl⟩ := Option.map_eq_some_iff.mp hk
      obtain ⟨k, -, hk⟩ := heach j ks hks
      refine List.filter_eq_nil_iff.mpr fun m hm => ?_
      rw [isMadeFromField_of_mem x c hk hm, decide_eq_true_eq]
      exact hj
  refine ⟨ms, hok, ?_, ?_⟩
  · have hdeclared : declared.filter (·.isMadeFromField i) = [] := by
      refine List.filter_eq_nil_iff.mpr fun m hm => ?_
      simp [Method.isMadeFromField, hc.notMade_of_stated hstated hm]
    have hsingleton : (if isSingleton then [singletonMethod x c] else []).filter (·.isMadeFromField i) = [] := by
      refine List.filter_eq_nil_iff.mpr fun m hm => ?_
      split at hm
      · rw [List.mem_singleton.mp hm]
        simp [singletonMethod, synthesize, Method.isMadeFromField]
      · exact absurd hm List.not_mem_nil
    have hproxies : (if createsProxy then proxies x c else []).filter (·.isMadeFromField i) = [] := by
      refine List.filter_eq_nil_iff.mpr fun m hm => ?_
      split at hm
      · obtain ⟨p, -, rfl⟩ := List.mem_map.mp hm
        simp [proxyMethod, synthesize, Method.isMadeFromField]
      · exact absurd hm List.not_mem_nil
    rw [hmethods, List.filter_append, List.filter_append, List.filter_append, hdeclared, hsingleton, hproxies, hkept]
    rfl
  · rw [← hkept]
    refine honce.sublist (.map _ (List.filter_sublist.trans ?_))
    exact List.sublist_append_right _ _

end Class

/-! ### The plan of a class -/

/-- The effect makes a method or is about one declaration. -/
def Effect.isPlain : Effect → Bool
  | .annotate _ _ | .note _ _ | .raiseProxy | .synthesize _ _ => true
  | _ => false

namespace Class

variable {x : PlanContext} {c : Class}

theorem plain_ownerPlan (h : Choices) : (ownerPlan x c h).all Effect.isPlain = true := by
  unfold ownerPlan
  simp only [List.all_append, apply_ite (List.all · Effect.isPlain), List.all_cons, List.all_nil, Effect.isPlain,
    Bool.and_true, ite_self]

theorem plain_methodPlan (i : Nat) (proxied : Bool) (m : Method) :
    Yields (methodPlan x c proxied i m) fun es => es.all Effect.isPlain = true := by
  refine .bind (.any _) fun traits _ => .pure ?_
  simp only [List.all_append, apply_ite (List.all · Effect.isPlain), List.all_cons, List.all_nil, Effect.isPlain,
    Bool.and_true, ite_self]

theorem exists_plain_plan {h : Choices} (hfail : ∀ g, .fail g ∉ c.plan x h) :
    ∃ plain, plain.all Effect.isPlain = true ∧
      c.plan x h = plain ++ c.fields.zipIdx.flatMap fun p => plannedEffects (fieldPlan x c p.2 p.1) := by
  refine ⟨_, ?_, rfl⟩
  rw [List.all_append, plain_ownerPlan, Bool.true_and, List.all_flatMap, List.all_eq_true]
  intro p hp
  obtain ⟨es, hplan⟩ := exists_of_plannedEffects fun g hg =>
    hfail g (List.mem_append_left _ (List.mem_append_right _ (List.mem_flatMap.mpr ⟨p, hp, hg⟩)))
  rw [hplan]
  exact plain_methodPlan p.2 _ p.1 es hplan

end Class
end HeaderReflection
