import HeaderReflection.Proofs.Declaration.ParameterNames
import HeaderReflection.Proofs.Derivation.FieldMethods
import HeaderReflection.Proofs.Source.Characters

/-! # Proxies

A proxy stands for a method that can be overridden.  It has the parameter list of the method as it was
written, and its body calls the method with the names of its own parameters.

* What deriving a class makes from a method is its proxy, and the method can be overridden
  (`Class.synthesizedMethods_proxies`).  In a class that is to have a proxy, each method that can be
  overridden has one (`Class.mem_synthesizedMethods_of_mem_proxies`).
* The names that a body passes on are those that were read from the list (`Class.PassesOn`).  None of them is
  empty exactly if every piece of the list declares a name, and then they are the names that the pieces
  declare (`Class.derive_proxies`).
* A parameter that is an array has no name, so nothing is passed on for it (`Class.not_forwarded_array`).

The statements about the list take it apart at its commas outside of brackets, as reading does; whether these
are the parameters that its author meant is a matter of the list. -/

namespace HeaderReflection

open Checked

namespace Class

section

variable (x : PlanContext) (c : Class)

/-! ### What is made from a method -/

/-- The method is the proxy of the method at a position, which can be overridden. -/
def IsProxyOf (p : Method) (i : Nat) (m : Method) : Prop :=
  c.methods[i]? = some m ∧ isOverridable m = true ∧ p = proxyMethod x c i m

theorem synthesizedMethods_proxies : Yields (c.synthesizedMethods x) fun ms =>
    ∀ p ∈ ms, ∀ i role, p.key? = some (.method i, role) → ∃ m, IsProxyOf x c p i m := by
  intro ms hms p hp i role hkey
  cases isSynthesized_of_mem x c ms hms p hp with
  | @proxy j m hm hover =>
      obtain ⟨hj, -⟩ := Prod.mk.inj (Option.some.inj hkey)
      obtain rfl : j = i := by simpa using hj
      exact ⟨m, hm, hover, rfl⟩
  | singleton | getter | setter | flag => cases hkey

end

/-! ### What a proxy is like -/

/-- The statement that passes arguments on to a method of the class. -/
def forwardingCall (name : String) (arguments : List String) : String :=
  "return self_type::" ++ name ++ "(" ++ String.intercalate ", " arguments ++ ");"

theorem forwardingCall_singleton_injective {name s t : String}
    (h : forwardingCall name [s] = forwardingCall name [t]) : s = t :=
  (String.append_right_inj _).mp ((String.append_left_inj _).mp h)

/-- A method passes the names of its parameters on.  None of them is empty exactly if each piece of the parameter list
declares a name, and where the list is written in level pieces that declare names, these are passed on. -/
structure PassesOn (p : Method) (name : String) : Prop where
  body : p.body = forwardingCall name (p.parameters.map (·.name))
  length : p.parameters.length = (Parameter.pieces p.rawParameters.toList).length
  named : (∀ a ∈ p.parameters, a.name ≠ "") ↔
    ∀ piece ∈ Parameter.pieces p.rawParameters.toList, ∃ w, Parameter.Declares piece w
  written : ∀ ps : List Parameter.NamedPiece, Text.allBrackets.AreLevel (Parameter.texts ps) →
    p.rawParameters = String.ofList ([','].intercalate (Parameter.texts ps)) →
    p.parameters.length = ps.length ∧ (∀ a ∈ p.parameters, a.name ≠ "") ∧
      p.body = forwardingCall name (ps.map (String.ofList ·.name))

theorem passesOn_of_isParsed {p : Method} (hlist : p.IsParsed) {name : String}
    (hbody : p.body = forwardingCall name (p.parameters.map (·.name))) : PassesOn p name := by
  unfold Method.IsParsed at hlist
  refine ⟨hbody, ?_, ?_, fun ps hlevel hps => ?_⟩
  · rw [hlist, Parameter.ofList_eq, List.length_map]
  · rw [hlist]
    exact Parameter.forall_name_ne_empty_iff _
  · rw [hps, String.toList_ofList] at hlist
    have hnames := Parameter.names_ofList hlevel
    rw [← hlist] at hnames
    refine ⟨?_, ?_, by rw [hbody, hnames]⟩
    · have hlength := congrArg List.length hnames
      rwa [List.length_map, List.length_map] at hlength
    · rw [hlist, Parameter.forall_name_ne_empty_iff, Parameter.pieces_intercalate hlevel, Parameter.texts,
        List.forall_mem_map]
      exact fun q _ => ⟨q.name, q.declares⟩

variable {x : PlanContext} {c : Class}

/-- The proxy of a method that was read has its parameter list, and passes the names on if the method is not
abstract. -/
theorem IsProxyOf.forwards {p m : Method} {i : Nat} (h : IsProxyOf x c p i m) (hread : m.HasReadParameters) :
    p.rawParameters = m.rawParameters ∧ p.parameters = m.parameters ∧
      p.IsParsed ∧ (m.flags.has .abstract = false → p.body = forwardingCall m.name (p.parameters.map (·.name))) := by
  obtain ⟨-, -, rfl⟩ := h
  obtain ⟨s, hlist, hparameters⟩ := hread
  have hraw : (proxyMethod x c i m).rawParameters = m.rawParameters := by
    show Text.trimmed m.rawParameters = m.rawParameters
    rw [hlist, Text.trimmed, String.toList_ofList, Text.trim_trim]
  have hsame : (proxyMethod x c i m).parameters = m.parameters := by
    show Parameter.ofList m.rawParameters.toList = m.parameters
    rw [hlist, String.toList_ofList, hparameters]
  refine ⟨hraw, hsame, ?_, fun habstract => ?_⟩
  · unfold Method.IsParsed
    rw [hraw]
    rfl
  · rw [hsame]
    exact if_neg (by rw [habstract]; exact Bool.false_ne_true)

/-! ### The proxies of a derived class -/

/-- The method of a derived class that is made from a method is a proxy. -/
theorem exists_isProxyOf (hc : c.IsDeclared) (hfault : (c.derive x).fault = none) {p : Method}
    (hp : p ∈ (c.derive x).result.methods) {i : Nat} {role : String} (hkey : p.key? = some (.method i, role)) :
    ∃ m, IsProxyOf x c p i m := by
  obtain ⟨declared, made, hmade, hmethods, hstated, -⟩ := exists_synthesized hc hfault
  rw [hmethods] at hp
  rcases List.mem_append.mp hp with hp | hp
  · rw [Method.key?, hc.notMade_of_stated hstated hp] at hkey
    cases hkey
  · exact synthesizedMethods_proxies x c made hmade p hp i role hkey

theorem mem_proxies {i : Nat} {m : Method} (hi : c.methods[i]? = some m) (hover : isOverridable m = true) :
    proxyMethod x c i m ∈ proxies x c :=
  List.mem_map.mpr ⟨(m, i), List.mem_filter.mpr ⟨List.mk_mem_zipIdx_iff_getElem?.mpr hi, hover⟩, rfl⟩

/-- The proxies of a class that is to have one are synthesized. -/
theorem mem_synthesizedMethods_of_mem_proxies
    (hcreates : (c.bearer .classType c.path x.isEnum).bool .createProxy = .ok true)
    {made : List Method} (hmade : c.synthesizedMethods x = .ok made) {p : Method} (hp : p ∈ proxies x c) : p ∈ made := by
  obtain ⟨isSingleton, -, hmade⟩ := bind_eq_ok.mp hmade
  obtain ⟨createsProxy, hcreates', hmade⟩ := bind_eq_ok.mp hmade
  obtain ⟨ofFields, -, hmade⟩ := bind_eq_ok.mp hmade
  obtain rfl := pure_eq_ok.mp hmade
  obtain rfl : true = createsProxy := Except.ok.inj (hcreates.symm.trans hcreates')
  exact List.mem_append_left _ (List.mem_append_right _ hp)

/-- Proxies forward their arguments.  Let a class of an accepted header be derived without a fault.  A proxy in it is
that of a method that can be overridden, has its parameter list, and unless the method is abstract passes its arguments
on.  And if the class is to have a proxy, every method that can be overridden has one. -/
theorem derive_proxies {r : Reader} {path : SourcePath} {text : String} {h : Header}
    (hread : r.read path text = .ok h) (hc : c ∈ h.classes) (hfault : (c.derive x).fault = none) :
    (∀ p ∈ (c.derive x).result.methods, ∀ i, p.key? = some (.method i, "Proxy") →
      ∃ m, c.methods[i]? = some m ∧ isOverridable m = true ∧ p.name = x.settings.names.proxy ++ m.name ∧
        p.rawParameters = m.rawParameters ∧ p.parameters = m.parameters ∧
        (m.flags.has .abstract = false → PassesOn p m.name)) ∧
    ((c.bearer .classType c.path x.isEnum).bool .createProxy = .ok true →
      ∀ (i : Nat) (m : Method), c.methods[i]? = some m → isOverridable m = true →
        ∃ p ∈ (c.derive x).result.methods, p.key? = some (.method i, "Proxy")) := by
  have hdeclared := Reader.isDeclared_of_mem_read hread hc
  refine ⟨fun p hp i hkey => ?_, fun hcreates i m hm hover => ?_⟩
  · obtain ⟨m, hm, hover, heq⟩ := exists_isProxyOf hdeclared hfault hp hkey
    have hparameters := Reader.parameters_of_mem_read hread hc m (List.mem_of_getElem? hm)
    obtain ⟨hraw, hsame, hparsed, hbody⟩ := IsProxyOf.forwards ⟨hm, hover, heq⟩ hparameters
    exact ⟨m, hm, hover, heq ▸ rfl, hraw, hsame, fun habstract => passesOn_of_isParsed hparsed (hbody habstract)⟩
  · obtain ⟨declared, made, hmade, hmethods, -⟩ := exists_synthesized hdeclared hfault
    have hp := mem_synthesizedMethods_of_mem_proxies hcreates hmade (mem_proxies hm hover)
    exact ⟨proxyMethod x c i m, hmethods ▸ List.mem_append_right declared hp, rfl⟩

/-! ### Runs on single headers -/

/-- The class is derived without a fault, it declares one method, `Run`, which is not abstract, and this has a proxy
with the parameter list. -/
def hasProxyOfRun (parameters : String) (c : Class) : Bool :=
  let o := c.derive ⟨{}, fun _ => none⟩
  o.fault.isNone && (c.methods.map (fun m => (m.name, m.flags.has .virtual, m.flags.has .abstract)) ==
    [("Run", true, false)] && o.result.methods.any fun p =>
      p.key? == some (.method 0, "Proxy") && p.rawParameters == parameters)

theorem exists_of_hasProxyOfRun {parameters : String} {c : Class} (h : hasProxyOfRun parameters c = true) :
    (c.derive ⟨{}, fun _ => none⟩).fault = none ∧
      ∃ m, c.methods[0]? = some m ∧ m.name = "Run" ∧ m.flags.has .virtual = true ∧ m.flags.has .abstract = false ∧
        ∃ p ∈ (c.derive ⟨{}, fun _ => none⟩).result.methods, p.key? = some (.method 0, "Proxy") ∧
          p.rawParameters = parameters := by
  obtain ⟨hfault, h⟩ := Bool.and_eq_true_iff.mp h
  obtain ⟨hmethods, h⟩ := Bool.and_eq_true_iff.mp h
  obtain ⟨m, hm, hfacts⟩ := Option.map_eq_some_iff.mp
    ((List.getElem?_map (l := c.methods)).symm.trans (congrArg (·[0]?) (beq_iff_eq.mp hmethods)))
  obtain ⟨hname, hflags⟩ := Prod.mk.inj hfacts
  obtain ⟨hvirtual, habstract⟩ := Prod.mk.inj hflags
  obtain ⟨p, hp, hproxy⟩ := List.any_eq_true.mp h
  obtain ⟨hkey, hraw⟩ := Bool.and_eq_true_iff.mp hproxy
  exact ⟨Option.isNone_iff_eq_none.mp hfault, m, hm, hname, hvirtual, habstract, p, hp, beq_iff_eq.mp hkey,
    beq_iff_eq.mp hraw⟩

/-- Two parameters, of a type with a comma and with a comma in a default argument. -/
theorem derive_proxies_two :
    ∃ (h : Header) (c : Class) (p : Method),
      (Reader.ofSettings {}).read ⟨.relative, ["Unit.h"]⟩
          ("RClass()\nstruct Unit \x7b\nRBody();\nRMethod()\n" ++
            "virtual int Run(map<A, B> values, char *name = f(1, 2));\n\x7d;") = .ok h ∧
        c ∈ h.classes ∧ p ∈ (c.derive ⟨{}, fun _ => none⟩).result.methods ∧ p.key? = some (.method 0, "Proxy") ∧
        p.parameters.length = 2 ∧ p.body = forwardingCall "Run" ["values", "name"] := by
  have hrun : ((Reader.ofSettings {}).read ⟨.relative, ["Unit.h"]⟩
      ("RClass()\nstruct Unit \x7b\nRBody();\nRMethod()\n" ++
        "virtual int Run(map<A, B> values, char *name = f(1, 2));\n\x7d;")).toOption.any
      (·.classes.any (hasProxyOfRun "map<A, B> values, char *name = f(1, 2)")) = true := by
    rw [Reader.read_ofList_append]
    decide +kernel
  obtain ⟨h, hread, hclass⟩ := Checked.exists_ok_of_any hrun
  obtain ⟨c, hc, hproxy⟩ := List.any_eq_true.mp hclass
  obtain ⟨hfault, m, hm, hname, -, habstract, p, hp, hkey, hraw⟩ := exists_of_hasProxyOfRun hproxy
  let values : Parameter.NamedPiece :=
    ⟨"map<A, B> values".toList, "values".toList, by decide, by decide, "map<A, B>".toList, ' ', by decide, by decide⟩
  let name : Parameter.NamedPiece :=
    ⟨" char *name = f(1, 2)".toList, "name".toList, by decide, by decide, "char ".toList, '*', by decide, by decide⟩
  obtain ⟨hproxies, -⟩ := derive_proxies hread hc hfault
  obtain ⟨n, hn, -, -, -, -, hforward⟩ := hproxies p hp 0 hkey
  obtain rfl : m = n := Option.some.inj (hm.symm.trans hn)
  obtain ⟨hlength, -, hbody⟩ :=
    (hforward habstract).written [values, name] ⟨by decide, by decide⟩ (hraw.trans (by decide))
  rw [hname] at hbody
  exact ⟨h, c, p, hread, hc, hp, hkey, hlength, hbody⟩

/-- Nothing is passed on for a parameter that is an array. -/
theorem not_forwarded_array :
    ¬∀ (r : Reader) (path : SourcePath) (text : String) (h : Header) (c : Class) (x : PlanContext),
      r.read path text = .ok h → c ∈ h.classes → (c.derive x).fault = none →
      ∀ p ∈ (c.derive x).result.methods, ∀ (i : Nat) (m : Method), p.key? = some (.method i, "Proxy") →
        c.methods[i]? = some m → m.flags.has .virtual = true → m.flags.has .abstract = false →
        ∃ names : List String, names.length = p.parameters.length ∧ (∀ name ∈ names, name ≠ "") ∧
          p.body = forwardingCall m.name names := by
  intro hall
  have hrun : ((Reader.ofSettings {}).read ⟨.relative, ["Unit.h"]⟩
      "RClass()\nstruct Unit \x7b\nRBody();\nRMethod()\nvirtual void Run(int a[3]);\n\x7d;").toOption.any
      (·.classes.any (hasProxyOfRun "int a[3]")) = true := by
    rw [Reader.read_ofList]
    decide +kernel
  obtain ⟨h, hread, hclass⟩ := Checked.exists_ok_of_any hrun
  obtain ⟨c, hc, hproxy⟩ := List.any_eq_true.mp hclass
  obtain ⟨hfault, m, hm, -, hvirtual, habstract, p, hp, hkey, hraw⟩ := exists_of_hasProxyOfRun hproxy
  obtain ⟨n, hn⟩ := exists_isProxyOf (Reader.isDeclared_of_mem_read hread hc) hfault hp hkey
  obtain rfl : m = n := Option.some.inj (hm.symm.trans hn.1)
  obtain ⟨-, -, hlist, hbody⟩ := hn.forwards (Reader.parameters_of_mem_read hread hc m (List.mem_of_getElem? hm))
  have harray : p.parameters = [⟨"", "int a[3]", ""⟩] := by
    rw [hlist, hraw]
    decide
  have hempty : p.body = forwardingCall m.name [""] := by
    rw [hbody habstract, harray]
    rfl
  obtain ⟨names, hlength, hnames, hforward⟩ := hall _ _ _ h c _ hread hc hfault p hp 0 m hkey hm hvirtual habstract
  rw [harray, List.length_singleton] at hlength
  obtain ⟨name, rfl⟩ := List.length_eq_one_iff.mp hlength
  exact hnames name List.mem_cons_self (forwardingCall_singleton_injective (hforward.symm.trans hempty))

end Class

end HeaderReflection
