import HeaderReflection.Proofs.Derivation.Derived
import HeaderReflection.Proofs.Derivation.Marks
import HeaderReflection.Proofs.Derivation.Synthesis
import HeaderReflection.Proofs.Source.Characters

/-! # Methods of one profile

An origin has a role only once, but what tells overloads apart is the name and the types of the parameters
(`Method.profile`).  Nothing compares these over a whole class, so made methods can clash with declared ones
and with each other.

* Each made method is a setter, a proxy, or a method without parameters (`Class.MadeAs`).
* The profile of a proxy is that of its method, but for a prefix of the name (`Class.profile_proxyMethod`), so
  the proxies of different profiles have different profiles.
* A setter has a parameter, so it does not clash with a method without parameters.
* Two setters have one profile only if their fields have one clean name.

If the declared methods of a class differ, clashes are therefore of few kinds (`Class.Clash`,
`Class.derive_clash`), and there are classes with clashes of these kinds that are derived without a fault
(`Class.derive_clash_cleanNames`). -/

namespace HeaderReflection

open Checked

/-! ### Profiles and clashes -/

/-- What tells a method from its overloads: its name and the types of its parameters. -/
def Method.profile (m : Method) : String × List String := (m.name, m.parameters.map (·.type))

/-- The parameters of a method are those of its raw parameter list. -/
def Method.IsParsed (m : Method) : Prop := m.parameters = Parameter.ofList m.rawParameters.toList

namespace Class

/-- The ways in which a method `k` of a derived class can have the profile of a method `m` before it, where `c` is
the class before it was derived: a made method that of a declared one, a proxy that of another made method or the
other way round, a made method without parameters that of another such one, and the setter of a field that of the
setter of another field with the same clean name. -/
inductive Clash (c : Class) (m k : Method) : Prop
  | declared (hm : m.synthesis = none) (hk : k.synthesis.isSome = true)
  | proxy (s t : Synthesis) (hm : m.synthesis = some s) (hk : k.synthesis = some t)
      (h : s.role = "Proxy" ↔ t.role ≠ "Proxy")
  | plain (s t : Synthesis) (hm : m.synthesis = some s) (hk : k.synthesis = some t)
      (hs : s.role ∉ ["Proxy", "Setter"]) (ht : t.role ∉ ["Proxy", "Setter"])
      (hne : (s.origin, s.role) ≠ (t.origin, t.role)) (hnone : m.parameters = [] ∧ k.parameters = [])
  | setters (i j : Nat) (f g : Field) (hf : c.fields[i]? = some f) (hg : c.fields[j]? = some g) (hne : i ≠ j)
      (hm : m.synthesis = some ⟨.field i, "Setter", f.line⟩) (hk : k.synthesis = some ⟨.field j, "Setter", g.line⟩)
      (hname : f.cleanName = g.cleanName)

/-! ### The made methods -/

variable (x : PlanContext) (c : Class)

/-- What a made method is like: a proxy, a setter, or another one, which has no parameters. -/
inductive MadeAs : Method → Prop
  | plain (s : Synthesis) (d : MethodDraft) (hs : s.role ∉ ["Proxy", "Setter"]) (hd : d.parameters = "") :
      MadeAs (c.synthesize s d)
  | proxy {i : Nat} {m : Method} (hm : c.methods[i]? = some m) : MadeAs (proxyMethod x c i m)
  | setter {i : Nat} {f : Field} (hf : c.fields[i]? = some f) (onChange : String) :
      MadeAs (setterMethod x c i f onChange)

theorem madeAs_flagMethod (i : Nat) (f : Field) (onChange : String) (e : Enumeration) (y : Enumerator)
    (a : FlagAccessor) : MadeAs x c (flagMethod c i f onChange e y a) := by
  refine .plain _ _ ?_ rfl
  have hdot : '.' ∈ (a.roleFor e y).toList := by simp [FlagAccessor.roleFor]
  intro (hrole : a.roleFor e y ∈ ["Proxy", "Setter"])
  generalize a.roleFor e y = role at hdot hrole
  rcases List.mem_cons.mp hrole with rfl | hrole
  · exact absurd hdot (by decide)
  · exact absurd (List.mem_singleton.mp hrole ▸ hdot) (by decide)

theorem synthesizedMethods_madeAs : Yields (c.synthesizedMethods x) fun ms => ∀ m ∈ ms, MadeAs x c m := by
  intro ms hms m hm
  cases isSynthesized_of_mem x c ms hms m hm with
  | singleton => exact .plain _ _ (show "SingletonGetter" ∉ ["Proxy", "Setter"] by decide) rfl
  | proxy hmethod => exact .proxy hmethod
  | getter => exact .plain _ _ (show "Getter" ∉ ["Proxy", "Setter"] by decide) rfl
  | setter hf onChange => exact .setter hf onChange
  | @flag i f _ onChange e y a => exact madeAs_flagMethod x c i f onChange e y a

end Class

/-! ### Profiles -/

theorem Text.mem_trim {d : Char} {s : List Char} (hmem : d ∈ s) (hd : Text.isBlank d = false) :
    d ∈ Text.trim s := by
  have hnot : ∀ {w : List Char}, (∀ c ∈ w, Text.isBlank c = true) → d ∉ w := by
    intro w hw hmem
    rw [hw d hmem] at hd
    cases hd
  obtain ⟨u, hu, hublank⟩ := Text.exists_trimLeft s
  obtain ⟨v, hv, hvblank⟩ := Text.exists_trimRight (Text.trimLeft s)
  rw [hu] at hmem
  have hleft := (List.mem_append.mp hmem).resolve_left (hnot hublank)
  rw [hv] at hleft
  exact (List.mem_append.mp hleft).resolve_right (hnot hvblank)

theorem Parameter.ofList_ne_nil {s : List Char} (h : '&' ∈ s) : Parameter.ofList s ≠ [] := by
  have hmem := Text.mem_trim h (by decide)
  unfold Parameter.ofList
  dsimp only
  split
  · rename_i hnone
    rw [Bool.or_eq_true, List.isEmpty_iff, beq_iff_eq] at hnone
    rcases hnone with hnil | hvoid
    · rw [hnil] at hmem
      exact absurd hmem List.not_mem_nil
    · rw [hvoid] at hmem
      exact absurd hmem (by decide)
  · exact fun hnil => Text.splitOutside_ne_nil _ _ _ (List.map_eq_nil_iff.mp hnil)

namespace Class

variable {x : PlanContext} {c : Class}

theorem parameters_synthesize {s : Synthesis} {d : MethodDraft} (hd : d.parameters = "") :
    (c.synthesize s d).parameters = [] := by
  unfold synthesize
  dsimp only
  rw [hd]
  rfl

theorem parameters_setterMethod_ne_nil (i : Nat) (f : Field) (onChange : String) :
    (setterMethod x c i f onChange).parameters ≠ [] :=
  Parameter.ofList_ne_nil (by simp [setterDraft])

theorem profile_proxyMethod {m : Method} (hm : m.IsParsed) (i : Nat) :
    (proxyMethod x c i m).profile = (x.settings.names.proxy ++ m.name, m.parameters.map (·.type)) := by
  unfold Method.IsParsed at hm
  rw [hm]
  rfl

/-- Two made methods of one profile, made from different origins or in different roles. -/
theorem clash_of_madeAs (hparsed : ∀ m ∈ c.methods, m.IsParsed) (hdeclared : (c.methods.map Method.profile).Nodup)
    {m k : Method} (hm : MadeAs x c m) (hk : MadeAs x c k) (hkeys : m.key? ≠ k.key?)
    (hprofile : m.profile = k.profile) : c.Clash m k := by
  obtain ⟨hname, htypes⟩ := Prod.mk.inj hprofile
  have hroles : "Setter" ≠ "Proxy" := by decide
  cases hm with
  | plain s d hs hd =>
      cases hk with
      | plain t e ht he =>
          exact .plain s t rfl rfl hs ht (fun h => hkeys (congrArg some h))
            ⟨parameters_synthesize hd, parameters_synthesize he⟩
      | proxy => exact .proxy s _ rfl rfl ⟨fun h => absurd (h ▸ List.mem_cons_self) hs, fun h => absurd rfl h⟩
      | setter =>
          rw [parameters_synthesize hd] at htypes
          exact absurd (List.map_eq_nil_iff.mp htypes.symm) (parameters_setterMethod_ne_nil _ _ _)
  | @proxy i n hn =>
      cases hk with
      | plain t e ht => exact .proxy _ t rfl rfl ⟨fun _ h => absurd (h ▸ List.mem_cons_self) ht, fun _ => rfl⟩
      | @proxy j o ho =>
          rw [profile_proxyMethod (hparsed n (List.mem_of_getElem? hn)),
            profile_proxyMethod (hparsed o (List.mem_of_getElem? ho))] at hprofile
          obtain ⟨hname, htypes⟩ := Prod.mk.inj hprofile
          have hsame : n.profile = o.profile := Prod.ext ((String.append_right_inj _).mp hname) htypes
          have hposition : (c.methods.map Method.profile)[i]? = (c.methods.map Method.profile)[j]? := by
            rw [List.getElem?_map, hn, List.getElem?_map, ho, Option.map_some, Option.map_some, hsame]
          have hlt : i < (c.methods.map Method.profile).length := by
            rw [List.length_map]
            exact (List.getElem?_eq_some_iff.mp hn).1
          obtain rfl := (List.getElem?_inj hlt hdeclared).mp hposition
          exact absurd rfl hkeys
      | setter => exact .proxy _ _ rfl rfl ⟨fun _ => hroles, fun _ => rfl⟩
  | @setter i f hf onChange =>
      cases hk with
      | plain t e ht he =>
          rw [parameters_synthesize he] at htypes
          exact absurd (List.map_eq_nil_iff.mp htypes) (parameters_setterMethod_ne_nil _ _ _)
      | proxy => exact .proxy _ _ rfl rfl ⟨fun h => absurd h hroles, fun h => absurd rfl h⟩
      | @setter j g hg _ =>
          refine .setters i j f g hf hg (fun hij => hkeys ?_) rfl rfl ((String.append_right_inj _).mp hname)
          exact congrArg (fun n => some (Origin.field n, "Setter")) hij

theorem IsDeclared.notMade_of_stated (hc : c.IsDeclared) {declared : List Method}
    (hstated : declared.map Method.stated = c.methods.map Method.stated) {m : Method} (hm : m ∈ declared) :
    m.synthesis = none := by
  obtain ⟨k, hk, hsame⟩ := List.mem_map.mp (hstated ▸ List.mem_map_of_mem hm)
  exact (congrArg Method.synthesis hsame).symm.trans (hc.methods k hk).notMade

theorem exists_made_of_run (hc : c.IsDeclared) {h : Choices} {w : ClassWork} (hchoices : c.choices x = .ok h)
    (hrun : ClassWork.run { owner := c } (c.plan x h) = (w, none)) :
    ∃ declared made, c.synthesizedMethods x = .ok made ∧ (w.owner.withMade w.made).methods = declared ++ made ∧
      declared.map Method.stated = c.methods.map Method.stated ∧ (made.map Method.key?).Nodup := by
  have hmade := filterMap_plan x c hc.noProxy hchoices (ClassWork.ne_fail_of_run hrun)
  have hmakes := synthesizedMethods_makes x c _ hmade
  have hstart : ({ owner := c } : ClassWork).Sound c := ⟨rfl, rfl, rfl, hc.registers⟩
  obtain ⟨hsound, hw⟩ := hstart.run (originIn_of_makes c hmakes) hrun
  rw [List.nil_append] at hw
  rw [← hw] at hmade hmakes
  refine ⟨w.owner.methods.map Method.noteOtherName, w.made, hmade, methods_withMade hmakes, ?_, hsound.registers.once⟩
  rw [← hsound.methods, List.map_map]
  exact List.map_congr_left fun m _ => m.stated_noteOtherName

/-- The methods of a class that was derived without a fault are those that it declares, as they are stated, and
behind them those that are synthesized, each in a role of its own. -/
theorem exists_synthesized (hc : c.IsDeclared) (hfault : (c.derive x).fault = none) :
    ∃ declared made, c.synthesizedMethods x = .ok made ∧ (c.derive x).result.methods = declared ++ made ∧
      declared.map Method.stated = c.methods.map Method.stated ∧ (made.map Method.key?).Nodup := by
  obtain ⟨h, w, hchoices, hrun, -, hresult⟩ := exists_run_of_derive hfault
  rw [hresult]
  exact exists_made_of_run hc hchoices hrun

end Class

/-! ### Declared methods -/

/-- The raw parameter list of a method is a trimmed text, and its parameters are those of that text. -/
def Method.HasReadParameters (m : Method) : Prop :=
  ∃ s, m.rawParameters = String.ofList (Text.trim s) ∧ m.parameters = Parameter.ofList (Text.trim s)

theorem MethodText.read_parameters : MethodText.read.Yields fun t =>
    ∃ s, t.rawParameters = String.ofList (Text.trim s) ∧ t.parameters = Parameter.ofList (Text.trim s) := by
  refine .bind (.any _) fun m _ => .bind (.any _) fun _ _ => .ite (fun _ => .throw_bind _) fun _ => ?_
  refine .bind (.any _) fun returnType _ => .ite (fun _ => .throw_bind _) fun _ => ?_
  refine .bind (.any _) fun name _ => .ite (fun _ => .throw_bind _) fun _ => ?_
  refine .bind (.any _) fun _ _ => .bind (.any _) fun _ _ => .ite (fun _ => ?_) fun _ => .throw_bind _
  refine .bind (.any _) fun s _ => .bind (.any _) fun _ _ => .bind (.any _) fun _ _ => ?_
  exact .bind (.any _) fun _ _ => .pure ⟨s, rfl, rfl⟩

namespace Reader

variable {r : Reader} {path : SourcePath} {text : String} {h : Header}

theorem methodOf_parameters (site : MarkerSite) (owner : Class) (access : Access) (text : List Char) :
    Yields (r.methodOf site owner access text) Method.HasReadParameters := by
  refine .bind (.lift fun t ht => MethodText.read_parameters.of_eval ht) fun t hread => ?_
  refine .bind (.any _) fun _ _ => .bind (.any _) fun _ _ => .bind (.any _) fun _ _ => ?_
  refine .bind (.any _) fun _ _ => .bind (.any _) fun _ _ => .bind (.any _) fun _ _ => ?_
  exact .pure hread

theorem parameters_of_mem_read (hr : r.read path text = .ok h) {c : Class} (hc : c ∈ h.classes) :
    ∀ m ∈ c.methods, m.HasReadParameters := by
  refine read_classes (P := fun c => ∀ m ∈ c.methods, m.HasReadParameters) ⟨?_, ?_, ?_, ?_⟩ hr c hc
  · intro site text c _ hc m hm
    obtain ⟨_, -, hc⟩ := classOf_makes site text c hc
    rw [hc.methods] at hm
    exact absurd hm List.not_mem_nil
  · exact fun _ hc => hc
  · exact fun _ hc _ => hc
  · intro site access text c d m _ hc hm hd
    obtain ⟨ps, rfl⟩ := claimProperties_yields c m d hd
    intro k hk
    rcases List.mem_append.mp hk with hk | hk
    · exact hc k hk
    · exact List.mem_singleton.mp hk ▸ methodOf_parameters site c access text m hm

theorem isParsed_of_mem_read (hr : r.read path text = .ok h) {c : Class} (hc : c ∈ h.classes) :
    ∀ m ∈ c.methods, m.IsParsed := by
  intro m hm
  obtain ⟨s, hraw, hparameters⟩ := parameters_of_mem_read hr hc m hm
  unfold Method.IsParsed
  rw [hraw, String.toList_ofList, hparameters]

end Reader

/-! ### Clashes in derived classes -/

namespace Class

/-- Redefinitions.  Let a class of an accepted header be derived without a fault, and let the methods that it
declares differ in their names or the types of their parameters.  Then two methods of the derived class do so too,
declared or synthesized, or they clash in one of the listed ways. -/
theorem derive_clash {r : Reader} {path : SourcePath} {text : String} {h : Header}
    (hread : r.read path text = .ok h) {c : Class} (hc : c ∈ h.classes) {x : PlanContext}
    (hfault : (c.derive x).fault = none) (hdeclared : (c.methods.map Method.profile).Nodup) :
    (c.derive x).result.methods.Pairwise fun m k => m.profile = k.profile → c.Clash m k := by
  have hunmade := Reader.isDeclared_of_mem_read hread hc
  obtain ⟨declared, made, hmade, hmethods, hstated, honce⟩ := exists_synthesized hunmade hfault
  have hmadeAs := synthesizedMethods_madeAs x c made hmade
  have hprofiles : (declared.map Method.profile).Nodup := by
    rw [map_eq_of_stated (s := Method.stated) (g := Method.profile) (fun _ => rfl) hstated]
    exact hdeclared
  unfold List.Nodup at hprofiles honce
  rw [List.pairwise_map] at hprofiles honce
  rw [hmethods]
  refine List.pairwise_append.mpr ⟨?_, ?_, fun m hm k hk _ => .declared ?_ ?_⟩
  · exact hprofiles.imp fun hne heq => absurd heq hne
  · exact honce.imp_of_mem fun hm hk hkeys heq =>
      clash_of_madeAs (Reader.isParsed_of_mem_read hread hc) hdeclared (hmadeAs _ hm) (hmadeAs _ hk) hkeys heq
  · obtain ⟨n, hn, hsame⟩ := List.mem_map.mp (hstated ▸ List.mem_map_of_mem hm)
    exact (congrArg Method.synthesis hsame).symm.trans (hunmade.methods n hn).notMade
  · obtain ⟨s, d, rfl, -⟩ := synthesizedMethods_makes x c made hmade k hk
    rfl

/-- A class with an accessor of its own, a proxy and accessors of a field. -/
theorem derive_clash_accessors :
    ∃ h c,
      (Reader.ofSettings {}).read ⟨.relative, ["Unit.h"]⟩
          ("RClass()\nstruct Unit \x7b\nRBody();\nRField()\nint mCount;\n" ++
            "RMethod()\nvirtual int Total();\n\x7d;") = .ok h ∧
        c ∈ h.classes ∧
        (c.derive ⟨{}, fun _ => none⟩).result.methods.map Method.profile =
          [("Total", []), ("_proxy_Total", []), ("GetCount", []), ("SetCount", ["int const&"])] ∧
        (c.derive ⟨{}, fun _ => none⟩).result.methods.Pairwise fun m k => m.profile = k.profile → c.Clash m k := by
  have hrun : ((Reader.ofSettings {}).read ⟨.relative, ["Unit.h"]⟩
      ("RClass()\nstruct Unit \x7b\nRBody();\nRField()\nint mCount;\n" ++
        "RMethod()\nvirtual int Total();\n\x7d;")).toOption.any
      (fun h => h.classes.any fun c => decide ((c.derive ⟨{}, fun _ => none⟩).fault = none ∧
        (c.methods.map Method.profile).Nodup ∧ (c.derive ⟨{}, fun _ => none⟩).result.methods.map Method.profile =
          [("Total", []), ("_proxy_Total", []), ("GetCount", []), ("SetCount", ["int const&"])])) = true := by
    rw [Reader.read_ofList_append]
    decide +kernel
  obtain ⟨h, hread, hclass⟩ := Checked.exists_ok_of_any hrun
  obtain ⟨c, hc, hderived⟩ := List.any_eq_true.mp hclass
  obtain ⟨hfault, hdeclared, hprofiles⟩ := of_decide_eq_true hderived
  exact ⟨h, c, hread, hc, hprofiles, derive_clash hread hc hfault hdeclared⟩

/-- Two fields of one clean name have the same accessors, the getter has the profile of a declared method, and if
proxies have the prefix of getters, so has a proxy. -/
theorem derive_clash_cleanNames :
    ∃ h c,
      (Reader.ofSettings {}).read ⟨.relative, ["Unit.h"]⟩
          ("RClass()\nstruct Unit \x7b\nRBody();\nRField()\nint mCount;\nRField()\nint Count;\n" ++
            "RMethod()\nint GetCount();\nRMethod()\nvirtual int Count();\n\x7d;") = .ok h ∧
        c ∈ h.classes ∧ (c.methods.map Method.profile).Nodup ∧
        (c.derive ⟨{}, fun _ => none⟩).fault = none ∧
        (c.derive ⟨{}, fun _ => none⟩).result.methods.map Method.profile =
          [("GetCount", []), ("Count", []), ("_proxy_Count", []), ("GetCount", []), ("SetCount", ["int const&"]),
            ("GetCount", []), ("SetCount", ["int const&"])] ∧
        (c.derive ⟨{ names := { proxy := "Get" } }, fun _ => none⟩).fault = none ∧
        (c.derive ⟨{ names := { proxy := "Get" } }, fun _ => none⟩).result.methods.map Method.profile =
          [("GetCount", []), ("Count", []), ("GetCount", []), ("GetCount", []), ("SetCount", ["int const&"]),
            ("GetCount", []), ("SetCount", ["int const&"])] := by
  have hrun : ((Reader.ofSettings {}).read ⟨.relative, ["Unit.h"]⟩
      ("RClass()\nstruct Unit \x7b\nRBody();\nRField()\nint mCount;\nRField()\nint Count;\n" ++
        "RMethod()\nint GetCount();\nRMethod()\nvirtual int Count();\n\x7d;")).toOption.any
      (fun h => h.classes.any fun c => decide ((c.methods.map Method.profile).Nodup ∧
        (c.derive ⟨{}, fun _ => none⟩).fault = none ∧
        (c.derive ⟨{}, fun _ => none⟩).result.methods.map Method.profile =
          [("GetCount", []), ("Count", []), ("_proxy_Count", []), ("GetCount", []), ("SetCount", ["int const&"]),
            ("GetCount", []), ("SetCount", ["int const&"])] ∧
        (c.derive ⟨{ names := { proxy := "Get" } }, fun _ => none⟩).fault = none ∧
        (c.derive ⟨{ names := { proxy := "Get" } }, fun _ => none⟩).result.methods.map Method.profile =
          [("GetCount", []), ("Count", []), ("GetCount", []), ("GetCount", []), ("SetCount", ["int const&"]),
            ("GetCount", []), ("SetCount", ["int const&"])])) = true := by
    rw [Reader.read_ofList_append]
    decide +kernel
  obtain ⟨h, hread, hclass⟩ := Checked.exists_ok_of_any hrun
  obtain ⟨c, hc, hderived⟩ := List.any_eq_true.mp hclass
  exact ⟨h, c, hread, hc, of_decide_eq_true hderived⟩

end Class

end HeaderReflection
