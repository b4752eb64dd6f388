import HeaderReflection.Proofs.Source.Accepted
import HeaderReflection.Proofs.Source.Characters
import HeaderReflection.Proofs.Source.Order

/-! # Claims to properties

A method claims the sides of properties in its attributes: it is the getter of one property, the setter of
another, or both.

* Every claim is recorded when the method is read, and one that was made before is refused
  (`Class.bindAccessor_records`).  So the properties of a class hold the claims of its methods and nothing
  else, in the order of the first ones (`RecordsClaims`).
* A method without parameters cannot be a setter, so reading refuses its claim (`Class.RecordsMethods`).
* Methods of a header have lines of their own, so the link of a method is that of no other
  (`Reader.eq_of_link_eq`), and from the accessor of a property its method is found.

What is recorded is kept as a list of claims in the order in which they were made.  The statement on classes
then looks at each property by itself (`Class.BindsClaims`, `Reader.bindsClaims_of_mem_classes`). -/

namespace HeaderReflection

open Checked

/-- The property whose side a method claims.  A getter names it or, as a property itself, lends it its own name. -/
def Method.claimed? (m : Method) (b : Bearer) : AccessorRole → Option String
  | .getter => do
    match ← (b.string? .getterFor).toOption with
    | some p => some p
    | none => if (← (b.bool? .propertyName).toOption) = some true then some m.name else none
  | .setter => (b.string? .setterFor).toOption.join

/-! ### Claims -/

/-- A claim of a method to a side of a property. -/
structure AccessorClaim where
  role : AccessorRole
  property : String
  method : MethodLink

/-- The claim of a method to a side, if it makes one. -/
def Method.claim? (m : Method) (b : Bearer) (role : AccessorRole) : Option AccessorClaim :=
  (m.claimed? b role).map fun p => ⟨role, p, m.link⟩

/-- What a method claims, the getter's side first. -/
def Method.claims (m : Method) (b : Bearer) : List AccessorClaim :=
  (m.claim? b .getter).toList ++ (m.claim? b .setter).toList

/-- What the methods of a class claim, one method after the other. -/
def Class.claims (c : Class) (isEnum : String → Bool) : List AccessorClaim :=
  c.methods.flatMap fun m => m.claims (m.bearer .method c.path isEnum)

theorem Method.mem_claims {m : Method} {b : Bearer} {k : AccessorClaim} :
    k ∈ m.claims b ↔ m.claimed? b k.role = some k.property ∧ k.method = m.link := by
  obtain ⟨role, p, l⟩ := k
  have hclaim : ∀ side, (⟨role, p, l⟩ : AccessorClaim) ∈ (m.claim? b side).toList ↔
      side = role ∧ m.claimed? b role = some p ∧ l = m.link := by
    intro side
    rw [Option.mem_toList, claim?, Option.map_eq_some_iff]
    constructor
    · rintro ⟨_, hclaimed, heq⟩
      obtain ⟨rfl, rfl, rfl⟩ := AccessorClaim.mk.inj heq
      exact ⟨rfl, hclaimed, rfl⟩
    · rintro ⟨rfl, hclaimed, rfl⟩
      exact ⟨p, hclaimed, rfl⟩
  rw [claims, List.mem_append, hclaim, hclaim]
  cases role with
  | getter => simp
  | setter => simp

/-! ### Recording -/

/-- The properties have the claims for their accessors, no claim comes twice, and every property has one. -/
structure RecordsClaims (ps : Keyed Property) (claims : List AccessorClaim) : Prop where
  order : ps.keys = (claims.map (·.property)).eraseDups
  once : (claims.map fun k => (k.role, k.property)).Nodup
  accessor : ∀ role name l, (ps.get? name).bind (·.accessor role) = some l ↔ ⟨role, name, l⟩ ∈ claims

theorem RecordsClaims.nil : RecordsClaims [] [] :=
  ⟨rfl, List.nodup_nil, fun _ _ _ => ⟨nofun, fun h => absurd h List.not_mem_nil⟩⟩

theorem eraseDups_concat (names : List String) (name : String) :
    (names ++ [name]).eraseDups = if name ∈ names then names.eraseDups else names.eraseDups ++ [name] := by
  rw [List.eraseDups_append]
  by_cases hname : name ∈ names
  · simp [List.removeAll, hname]
  · simp [List.removeAll, hname, List.eraseDups_cons]

namespace Class

variable {c d : Class} {claims : List AccessorClaim} {role : AccessorRole} {name : String} {l : MethodLink}

theorem accessor_property (c : Class) (name : String) (role : AccessorRole) :
    (c.property name).accessor role = (c.properties.get? name).bind (·.accessor role) := by
  unfold property
  cases c.properties.get? name with
  | some p => rfl
  | none =>
      cases role with
      | getter => rfl
      | setter => rfl

/-- Binding a method to a side records its claim, for which the side has to be free. -/
theorem bindAccessor_records (hc : RecordsClaims c.properties claims) (h : c.bindAccessor role name l = .ok d) :
    RecordsClaims d.properties (claims ++ [⟨role, name, l⟩]) := by
  unfold bindAccessor Property.bind at h
  cases hfree : (c.property name).accessor role with
  | some taken =>
      rw [hfree] at h
      cases h
  | none =>
      rw [hfree] at h
      obtain rfl := Except.ok.inj h
      have hunclaimed : ∀ k, (⟨role, name, k⟩ : AccessorClaim) ∉ claims := by
        intro k hk
        have hbound := (hc.accessor role name k).mpr hk
        rw [← accessor_property, hfree] at hbound
        cases hbound
      refine ⟨?_, ?_, fun side other k => ?_⟩
      · rw [Keyed.keys_put, hc.order, List.map_append, List.map_singleton, eraseDups_concat]
        simp only [List.mem_eraseDups]
      · rw [List.map_append]
        refine List.Nodup.append hc.once (List.nodup_singleton _) ?_
        rw [List.map_singleton, List.disjoint_singleton]
        intro hclaimed
        obtain ⟨⟨side, other, k⟩, hk, heq⟩ := List.mem_map.mp hclaimed
        obtain ⟨rfl, rfl⟩ := Prod.mk.inj heq
        exact hunclaimed k hk
      · rw [Keyed.get?_put, List.mem_append, List.mem_singleton, AccessorClaim.mk.injEq, ← hc.accessor]
        by_cases hname : other = name
        · subst hname
          rw [if_pos rfl, Option.bind_some, Property.accessor_withAccessor, accessor_property]
          by_cases hside : side = role
          · subst hside
            rw [accessor_property] at hfree
            simp [hfree, eq_comm]
          · simp [hside]
        · simp [hname]

end Class

namespace Reader

variable {r : Reader} {path : SourcePath} {lines : List String} {c d : Class} {b : Bearer} {m : Method}
  {claims : List AccessorClaim}

theorem claimGetter_records (hc : RecordsClaims c.properties claims) (h : claimGetter b c m = .ok d) :
    RecordsClaims d.properties (claims ++ (m.claim? b .getter).toList) := by
  obtain ⟨getter, hgetter, h⟩ := bind_eq_ok.mp h
  have hclaimed : m.claimed? b .getter = getter := by
    obtain ⟨named, hnamed, hgetter⟩ := bind_eq_ok.mp hgetter
    unfold Method.claimed?
    rw [hnamed]
    cases named with
    | some p => exact pure_eq_ok.mp hgetter
    | none =>
        obtain ⟨own, hown, hgetter⟩ := bind_eq_ok.mp hgetter
        rw [hown]
        exact pure_eq_ok.mp hgetter
  unfold Method.claim?
  rw [hclaimed]
  cases getter with
  | none =>
      obtain rfl := pure_eq_ok.mp h
      rwa [Option.map_none, Option.toList_none, List.append_nil]
  | some p => exact Class.bindAccessor_records hc (lift_eq_ok.mp h)

theorem claimSetter_records (hc : RecordsClaims c.properties claims) (h : claimSetter b c m = .ok d) :
    RecordsClaims d.properties (claims ++ (m.claim? b .setter).toList) ∧
      ∀ p, m.claimed? b .setter = some p → m.parameters ≠ [] := by
  obtain ⟨setter, hsetter, h⟩ := bind_eq_ok.mp h
  have hclaimed : m.claimed? b .setter = setter := by
    unfold Method.claimed?
    rw [hsetter]
    rfl
  unfold Method.claim?
  rw [hclaimed]
  cases setter with
  | none =>
      obtain rfl := pure_eq_ok.mp h
      rw [Option.map_none, Option.toList_none, List.append_nil]
      exact ⟨hc, nofun⟩
  | some p =>
      dsimp only at h
      split at h
      · exact absurd h throw_ne_ok
      · rename_i hparameters
        refine ⟨Class.bindAccessor_records hc (lift_eq_ok.mp h), fun _ _ hnil => hparameters ?_⟩
        rw [hnil]
        rfl

/-- The claims of the methods are recorded in the class, and its setters have something to set. -/
structure RecordsMethods (isEnum : String → Bool) (c : Class) : Prop where
  claims : RecordsClaims c.properties (c.claims isEnum)
  parameters : ∀ m ∈ c.methods, ∀ p,
    m.claimed? (m.bearer .method c.path isEnum) .setter = some p → m.parameters ≠ []

theorem recordsMethods_invariant : r.ClassInvariant path lines (RecordsMethods r.isEnum) where
  declare := by
    intro site text c _ hc
    obtain ⟨_, -, hc⟩ := classOf_makes site text c hc
    refine ⟨?_, ?_⟩
    · unfold Class.claims
      rw [hc.methods, hc.properties]
      exact .nil
    · rw [hc.methods]
      exact fun m hm => absurd hm List.not_mem_nil
  body := fun _ hc => ⟨hc.claims, hc.parameters⟩
  field := fun _ hc _ => ⟨hc.claims, hc.parameters⟩
  method := by
    intro site access text c d m _ hc _ hd
    obtain ⟨ps, hps⟩ := claimProperties_yields c m d hd
    obtain ⟨k, hk, hd⟩ := bind_eq_ok.mp hd
    obtain ⟨hrecords, hparameters⟩ := claimSetter_records (claimGetter_records hc.claims hk) hd
    subst hps
    refine ⟨?_, fun n hn => ?_⟩
    · have hclaims : Class.claims { c with properties := ps, methods := c.methods ++ [m] } r.isEnum =
          c.claims r.isEnum ++ m.claims (m.bearer .method c.path r.isEnum) := by
        simp [Class.claims]
      show RecordsClaims ps _
      rw [hclaims, Method.claims, ← List.append_assoc]
      exact hrecords
    · rcases List.mem_append.mp hn with hn | hn
      · exact hc.parameters n hn
      · obtain rfl := List.mem_singleton.mp hn
        exact hparameters

end Reader

/-! ### Classes that were read -/

/-- The properties of the class are what its methods claim, and its methods claim nothing that others claim. -/
structure Class.BindsClaims (c : Class) (isEnum : String → Bool) : Prop where
  named : ∀ q ∈ c.properties, q.2.name = q.1
  accessor : ∀ q ∈ c.properties, ∀ role, ∀ m ∈ c.methods,
    q.2.accessor role = some m.link ↔ m.claimed? (m.bearer .method c.path isEnum) role = some q.2.name
  own : ∀ q ∈ c.properties, ∀ role l, q.2.accessor role = some l → ∃ m ∈ c.methods, m.link = l
  parameters : ∀ m ∈ c.methods, ∀ p,
    m.claimed? (m.bearer .method c.path isEnum) .setter = some p → m.parameters ≠ []
  once : c.methods.Pairwise fun m n => ∀ role p,
    m.claimed? (m.bearer .method c.path isEnum) role = some p →
      n.claimed? (n.bearer .method c.path isEnum) role ≠ some p
  bound : ∀ q ∈ c.properties, ∃ role l, q.2.accessor role = some l
  order : c.properties.keys = ((c.claims isEnum).map (·.property)).eraseDups

namespace Reader

variable {r : Reader} {path : SourcePath} {text : String} {h : Header} {c : Class}

/-- Methods of a header have lines of their own, so a link is that of one method. -/
theorem eq_of_link_eq (hr : r.read path text = .ok h) (hc : c ∈ h.classes) {m n : Method} (hm : m ∈ c.methods)
    (hn : n ∈ c.methods) (hlink : m.link = n.link) : m = n := by
  obtain ⟨-, k, hreached⟩ := exists_reached_of_read hr
  have hmethods := (hreached.inOrder.classes c (List.mem_reverse.mpr hc)).methods
  have hlines : (c.methods.map (·.line)).Nodup := (List.pairwise_cons.mp hmethods).2.imp Nat.ne_of_lt
  exact (List.nodup_map_iff_inj_on (List.Nodup.of_map _ hlines)).mp hlines m hm n hn
    (congrArg MethodLink.line hlink)

/-- In every class of an accepted header, a property has exactly those methods for its accessors that claim its
sides.  A setter has a parameter, no two methods claim the same side of one property, every property has a side that
is claimed, and properties are listed in the order in which they are first claimed. -/
theorem bindsClaims_of_mem_classes (hr : r.read path text = .ok h) (hc : c ∈ h.classes) : c.BindsClaims r.isEnum := by
  obtain ⟨hrecords, hparameters⟩ := read_classes recordsMethods_invariant hr c hc
  have howns := (readFrom_of_mem_classes hr hc).properties
  have hnamed : ∀ q ∈ c.properties, q.2.name = q.1 := fun q hq => (howns.belongs q hq).name
  have hclaimed : ∀ {role p l}, (⟨role, p, l⟩ : AccessorClaim) ∈ c.claims r.isEnum ↔
      ∃ m ∈ c.methods, m.claimed? (m.bearer .method c.path r.isEnum) role = some p ∧ l = m.link := by
    intro role p l
    unfold Class.claims
    rw [List.mem_flatMap]
    simp only [Method.mem_claims]
  have haccessor : ∀ q ∈ c.properties, ∀ role l,
      q.2.accessor role = some l ↔ (⟨role, q.1, l⟩ : AccessorClaim) ∈ c.claims r.isEnum := by
    intro q hq role l
    rw [← hrecords.accessor, Keyed.get?_eq_some_of_mem howns.keys hq]
    rfl
  refine ⟨hnamed, fun q hq role m hm => ?_, fun q hq role l hl => ?_, hparameters, ?_, fun q hq => ?_, hrecords.order⟩
  · rw [haccessor q hq, hclaimed, hnamed q hq]
    constructor
    · rintro ⟨n, hn, hclaim, hlink⟩
      rwa [eq_of_link_eq hr hc hm hn hlink]
    · exact fun hclaim => ⟨m, hm, hclaim, rfl⟩
  · obtain ⟨m, hm, -, rfl⟩ := hclaimed.mp ((haccessor q hq role l).mp hl)
    exact ⟨m, hm, rfl⟩
  · -- Two methods with one claim would put it on record twice.
    have honce := List.pairwise_map.mp hrecords.once
    unfold Class.claims at honce
    refine (List.pairwise_flatMap.mp honce).2.imp fun {m n} hdistinct role p hm hn => ?_
    exact hdistinct ⟨role, p, m.link⟩ (Method.mem_claims.mpr ⟨hm, rfl⟩) ⟨role, p, n.link⟩
      (Method.mem_claims.mpr ⟨hn, rfl⟩) rfl
  · have hkey : q.1 ∈ c.properties.keys := List.mem_map_of_mem hq
    rw [hrecords.order, List.mem_eraseDups] at hkey
    obtain ⟨⟨role, _, l⟩, hclaim, rfl⟩ := List.mem_map.mp hkey
    exact ⟨role, l, (haccessor q hq role l).mpr hclaim⟩

/-- A property with both sides, of which the setter is read first, and one with a getter that is named after it. -/
theorem bindsClaims_of_mem_classes_setter_first :
    ∃ (h : Header) (c : Class), (Reader.ofSettings {}).read ⟨.relative, ["Unit.h"]⟩
        ("RClass()\nstruct Unit \x7b\nRBody();\nRMethod(SetterFor = \"Size\")\nvoid Resize(int n);\n" ++
          "RMethod(Property)\nint Kind();\nRMethod(GetterFor = \"Size\")\nint Count();\n\x7d;") = .ok h ∧
      c ∈ h.classes ∧ c.properties.keys = ["Size", "Kind"] ∧ c.BindsClaims Bearer.noEnum := by
  have hrun : ((Reader.ofSettings {}).read ⟨.relative, ["Unit.h"]⟩
        ("RClass()\nstruct Unit \x7b\nRBody();\nRMethod(SetterFor = \"Size\")\nvoid Resize(int n);\n" ++
          "RMethod(Property)\nint Kind();\nRMethod(GetterFor = \"Size\")\nint Count();\n\x7d;")
      |>.toOption.any fun h => h.classes.any (·.properties.keys == ["Size", "Kind"])) = true := by
    rw [read_ofList_append]
    decide +kernel
  obtain ⟨h, hread, hrun⟩ := Checked.exists_ok_of_any hrun
  obtain ⟨c, hc, hkeys⟩ := List.any_eq_true.mp hrun
  exact ⟨h, c, hread, hc, beq_iff_eq.mp hkeys, bindsClaims_of_mem_classes hread hc⟩

end Reader

end HeaderReflection
