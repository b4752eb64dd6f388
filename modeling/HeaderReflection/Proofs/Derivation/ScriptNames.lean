import HeaderReflection.Proofs.Derivation.Faults
import HeaderReflection.Proofs.Derivation.Proxies
import HeaderReflection.Proofs.Source.Characters

/-! # Script names resolve overloads

Methods of one name can be given script names to tell them apart.  The names of a class are checked at the end
of its derivation, and the message of a fault recommends script names as the remedy.  Here it is said when
this helps.

* A class is resolved if each declared method that shares its name has a script name, and the script names
  differ from each other and from all names, those of made methods included (`Class.IsResolved`).
* Then no script name leads to two methods (`Class.IsResolved.cause_ne_uniqueNameTaken`), and what calls find
  by a script name is one method, whatever defaults it has (`Class.IsResolved.cause_ne_overload`).
* Proxies have no script names.  Where two of the methods can be overridden, one of them with default
  arguments, the proxies are overloads with default arguments and the class cannot be derived
  (`Class.derive_resolved`).

A fault of the check is about the methods that are declared and those that are synthesized
(`Class.exists_isChecked_of_fault`), so both directions are read off from these two lists. -/

namespace HeaderReflection

open Checked

theorem eq_of_nodup_filterMap {α β : Type} {g : α → Option β} {l : List α} (h : (l.filterMap g).Nodup) {i j : Nat}
    {a b : α} {n : β} (hi : l[i]? = some a) (ha : g a = some n) (hj : l[j]? = some b) (hb : g b = some n) : i = j := by
  obtain ⟨hilt, rfl⟩ := List.getElem?_eq_some_iff.mp hi
  obtain ⟨hjlt, rfl⟩ := List.getElem?_eq_some_iff.mp hj
  unfold List.Nodup at h
  rw [List.pairwise_filterMap, List.pairwise_iff_getElem] at h
  rcases Nat.lt_trichotomy i j with hlt | heq | hlt
  · exact absurd rfl (h i j hilt hjlt hlt n ha n hb)
  · exact heq
  · exact absurd rfl (h j i hjlt hilt hlt n hb n ha)

/-- The cause is one that the check of the names of methods finds. -/
def Cause.isOfMethodNames : Cause → Bool
  | .uniqueNameTaken | .overloadWithDefaults _ => true
  | _ => false

theorem FlagFault.isOfMethodNames {e : Cause} (h : FlagFault e) : e.isOfMethodNames = false := by
  cases h with
  | invalid => rfl
  | exclusive => rfl
  | outOfRange => rfl
  | overlong => rfl

/-! ### Methods that are named alike -/

namespace Method

/-- The methods agree in what the check of their names looks at. -/
structure NamedAlike (m k : Method) : Prop where
  names : m.names = k.names
  given : m.givenName? = k.givenName?
  dispatch : m.dispatchName = k.dispatchName
  defaults : m.hasDefaults = k.hasDefaults

theorem namedAlike_of_stated {m k : Method} (h : m.stated = k.stated) : m.NamedAlike k := by
  have hsame : ∀ {α : Type} (g : Method → α), (∀ m, g m.stated = g m) → g m = g k := by
    intro α g hg
    rw [← hg m, h, hg]
  exact ⟨hsame names fun _ => rfl, hsame givenName? fun _ => rfl, hsame dispatchName fun _ => rfl,
    hsame hasDefaults fun _ => rfl⟩

theorem exists_namedAlike {ms ks : List Method} (h : ms.map stated = ks.map stated) {i : Nat} {m : Method}
    (hi : ms[i]? = some m) : ∃ k, ks[i]? = some k ∧ k.NamedAlike m := by
  have hsame : (ks.map stated)[i]? = some m.stated := by rw [← h, List.getElem?_map, hi, Option.map_some]
  rw [List.getElem?_map] at hsame
  obtain ⟨k, hk, hstated⟩ := Option.map_eq_some_iff.mp hsame
  exact ⟨k, hk, namedAlike_of_stated hstated⟩

end Method

namespace Class

/-! ### Overloads and their script names -/

/-- Another declared method has the name of the one at a position. -/
def IsOverloaded (c : Class) (i : Nat) : Prop :=
  ∃ j : Nat, ∃ m k : Method, c.methods[i]? = some m ∧ j ≠ i ∧ c.methods[j]? = some k ∧ k.name = m.name

/-- Every overloaded method has a script name, and the script names differ from each other and from the names of all
methods, declared and synthesized. -/
structure IsResolved (x : PlanContext) (c : Class) : Prop where
  given : ∀ i : Nat, ∀ m : Method, c.IsOverloaded i → c.methods[i]? = some m → m.givenName? ≠ none
  distinct : (c.methods.filterMap Method.givenName?).Nodup
  declared : ∀ m ∈ c.methods, ∀ k ∈ c.methods, m.givenName? ≠ some k.name
  synthesized : ∀ made, c.synthesizedMethods x = .ok made → ∀ m ∈ c.methods, ∀ k ∈ made, m.givenName? ≠ some k.name

/-- Two methods of a name can be overridden, and one of them has default arguments. -/
def OverridesDefaults (c : Class) (n : String) : Prop :=
  ∃ i j : Nat, ∃ m k : Method, c.methods[i]? = some m ∧ c.methods[j]? = some k ∧ j ≠ i ∧ isOverridable m = true ∧
    isOverridable k = true ∧ m.name = n ∧ k.name = n ∧ m.hasDefaults = true

variable {x : PlanContext} {c : Class} {made : List Method}

theorem Makes.givenName? {m : Method} (h : c.Makes m) : m.givenName? = none := by
  obtain ⟨s, d, rfl, -⟩ := h
  rfl

theorem getElem?_of_givenName? (hmade : c.synthesizedMethods x = .ok made) {i : Nat} {m : Method} {n : String}
    (hi : (c.methods ++ made)[i]? = some m) (hm : m.givenName? = some n) : c.methods[i]? = some m := by
  rw [List.getElem?_append] at hi
  split at hi
  · exact hi
  · have hnone := (synthesizedMethods_makes x c made hmade m (List.mem_of_getElem? hi)).givenName?
    rw [hm] at hnone
    cases hnone

/-- A script name that is resolved leads to one method. -/
theorem IsResolved.eq_of_mem_names (h : c.IsResolved x) (hmade : c.synthesizedMethods x = .ok made) {i j : Nat}
    {m k : Method} {n : String} (hi : (c.methods ++ made)[i]? = some m) (hm : m.givenName? = some n)
    (hj : (c.methods ++ made)[j]? = some k) (hk : n ∈ k.names) : j = i := by
  have hi := getElem?_of_givenName? hmade hi hm
  have hmem := List.mem_of_getElem? hi
  rcases (k.mem_names n).mp hk with rfl | hk
  · rcases List.mem_append.mp (List.mem_of_getElem? hj) with hk | hk
    · exact absurd hm (h.declared m hmem k hk)
    · exact absurd hm (h.synthesized made hmade m hmem k hk)
  · exact eq_of_nodup_filterMap h.distinct (getElem?_of_givenName? hmade hj hk) hk hi hm

/-! ### Faults of the check -/

/-- A class has been derived as far as the check of the names: its methods are those declared, as they are stated, and
those synthesized. -/
structure IsChecked (x : PlanContext) (c : Class) (made : List Method) (d : Class) : Prop where
  synthesized : c.synthesizedMethods x = .ok made
  once : (made.map Method.key?).Nodup
  methods : d.methods.map Method.stated = (c.methods ++ made).map Method.stated
  indexed : d.IsIndexed

theorem exists_isChecked (hc : c.IsDeclared) {h : Choices} {w : ClassWork} (hchoices : c.choices x = .ok h)
    (hrun : ClassWork.run { owner := c } (c.plan x h) = (w, none)) :
    ∃ made, IsChecked x c made (w.owner.withMade w.made) := by
  obtain ⟨declared, made, hmade, hmethods, hstated, honce⟩ := exists_made_of_run hc hchoices hrun
  refine ⟨made, hmade, honce, ?_, isIndexed_indexMethods _⟩
  rw [hmethods, List.map_append, List.map_append, hstated]

/-- A fault of the check comes from the declared and the synthesized methods. -/
theorem exists_isChecked_of_fault (hc : c.IsDeclared) (hvalid : c.Valid) {f : Fault}
    (hf : (c.derive x).fault = some f) (hcause : f.cause.isOfMethodNames = true) :
    ∃ made d, IsChecked x c made d ∧ (d.sharedNameFault? = some f ∨ d.overloadFault? = some f) := by
  obtain ⟨h, hchoices⟩ := exists_choices (x := x) hvalid
  unfold derive at hf
  rw [hchoices] at hf
  dsimp only at hf
  split at hf
  · rename_i w g hrun
    obtain rfl := Option.some.inj hf
    -- What goes wrong in a run is about single members.
    have hother : g.cause.isOfMethodNames = false := by
      refine ClassWork.cause_of_run (P := fun e => e.isOfMethodNames = false) (fun _ _ _ => rfl) (fun _ _ _ => rfl)
        (fun g hg => ?_) hrun
      cases planned_of_mem_plan hvalid hg with
      | fail hflags => exact hflags.isOfMethodNames
    rw [hother] at hcause
    cases hcause
  · rename_i w hrun
    obtain ⟨made, hchecked⟩ := exists_isChecked hc hchoices hrun
    split at hf
    · rename_i g hmember
      obtain rfl := Option.some.inj hf
      refine ⟨made, _, hchecked, ?_⟩
      rcases memberFault?_cases hmember with hshared | hoverload | habstract
      · exact .inl hshared
      · exact .inr hoverload
      · obtain ⟨m, -, rfl⟩ := exists_of_abstractFault? habstract
        cases hcause
    · cases hf

theorem IsResolved.cause_ne_uniqueNameTaken (h : c.IsResolved x) (hc : c.IsDeclared) (hvalid : c.Valid) {f : Fault}
    (hf : (c.derive x).fault = some f) : f.cause ≠ .uniqueNameTaken := by
  intro hcause
  obtain ⟨made, d, hd, hshared | hoverload⟩ := exists_isChecked_of_fault hc hvalid hf (by rw [hcause]; rfl)
  · obtain ⟨i, j, n, m, hi, hm, hj, k, hk, hkn⟩ :=
      (isSome_sharedNameFault?_iff hd.indexed).mp (Option.isSome_iff_exists.mpr ⟨f, hshared⟩)
    obtain ⟨m', hi', hmsame⟩ := Method.exists_namedAlike hd.methods hi
    obtain ⟨k', hj', hksame⟩ := Method.exists_namedAlike hd.methods hk
    exact hj (h.eq_of_mem_names hd.synthesized hi' (hmsame.given.trans hm) hj' (hksame.names ▸ (k.mem_names n).mpr hkn))
  · obtain ⟨m, -, n, rfl⟩ := exists_of_overloadFault? hoverload
    cases hcause

theorem overloads_of_fault (hc : c.IsDeclared) (hvalid : c.Valid) {f : Fault} (hf : (c.derive x).fault = some f)
    {n : String} (hcause : f.cause = .overloadWithDefaults n) :
    ∃ made, c.synthesizedMethods x = .ok made ∧ (made.map Method.key?).Nodup ∧
      ∃ i j : Nat, ∃ m k : Method, (c.methods ++ made)[i]? = some m ∧ m.hasDefaults = true ∧ m.dispatchName = n ∧
        j ≠ i ∧ (c.methods ++ made)[j]? = some k ∧ k.dispatchName = n := by
  obtain ⟨made, d, hd, hshared | hoverload⟩ := exists_isChecked_of_fault hc hvalid hf (by rw [hcause]; rfl)
  · obtain ⟨m, -, -, notes, rfl⟩ := exists_of_sharedNameFault? hshared
    cases hcause
  · obtain ⟨i, j, m, k, hi, hdefaults, hj, hk, hkn, rfl⟩ := overloads_of_overloadFault? hoverload
    obtain rfl : m.dispatchName = n := Cause.overloadWithDefaults.inj hcause
    obtain ⟨m', hi', hmsame⟩ := Method.exists_namedAlike hd.methods hi
    obtain ⟨k', hj', hksame⟩ := Method.exists_namedAlike hd.methods hk
    exact ⟨made, hd.synthesized, hd.once, i, j, m', k', hi', hmsame.defaults.trans hdefaults, hmsame.dispatch, hj, hj',
      hksame.dispatch.trans hkn⟩

theorem fault_ne_none_of_overloads (hc : c.IsDeclared) (hmade : c.synthesizedMethods x = .ok made) {i j : Nat}
    {m k : Method} (hi : (c.methods ++ made)[i]? = some m) (hdefaults : m.hasDefaults = true) (hj : j ≠ i)
    (hk : (c.methods ++ made)[j]? = some k) (hname : k.dispatchName = m.dispatchName) :
    (c.derive x).fault ≠ none := by
  intro hfault
  obtain ⟨h, w, hchoices, hrun, hmember, -⟩ := exists_run_of_derive hfault
  obtain ⟨made', hd⟩ := exists_isChecked hc hchoices hrun
  obtain rfl : made = made' := Except.ok.inj (hmade.symm.trans hd.synthesized)
  obtain ⟨m', hi', hmsame⟩ := Method.exists_namedAlike hd.methods.symm hi
  obtain ⟨k', hj', hksame⟩ := Method.exists_namedAlike hd.methods.symm hk
  have hoverloads : (w.owner.withMade w.made).OverloadsDefaults :=
    ⟨i, j, m', k', hi', hmsame.defaults.trans hdefaults, hj, hj',
      (hksame.dispatch.trans hname).trans hmsame.dispatch.symm⟩
  have hsome := (isSome_nameFault?_iff hd.indexed).mpr (.inr hoverloads)
  unfold memberFault? at hmember
  rw [((Option.orElse_eq_none _ _).mp hmember).1] at hsome
  cases hsome

/-! ### Overloads that are resolved -/

theorem IsResolved.cause_ne_overload (h : c.IsResolved x) (hc : c.IsDeclared) (hvalid : c.Valid) {f : Fault}
    (hf : (c.derive x).fault = some f) {i : Nat} {m : Method} (hover : c.IsOverloaded i)
    (hi : c.methods[i]? = some m) : f.cause ≠ .overloadWithDefaults m.dispatchName := by
  intro hcause
  obtain ⟨made, hmade, -, p, q, a, b, hp, -, ha, hne, hq, hb⟩ := overloads_of_fault hc hvalid hf hcause
  obtain ⟨n, hn⟩ := Option.ne_none_iff_exists'.mp (h.given i m hover hi)
  have hdispatch : m.dispatchName = n := by rw [m.dispatchName_eq, hn, Option.getD_some]
  have hwhole : (c.methods ++ made)[i]? = some m := by
    rw [List.getElem?_append_left (List.getElem?_eq_some_iff.mp hi).1, hi]
  rw [hdispatch] at ha hb
  have hpi := h.eq_of_mem_names hmade hwhole hn hp (ha ▸ a.dispatchName_mem_names)
  have hqi := h.eq_of_mem_names hmade hwhole hn hq (hb ▸ b.dispatchName_mem_names)
  exact hne (hqi.trans hpi.symm)

/-! ### Overloads of proxies -/

theorem IsProxyOf.hasDefaults {p m : Method} {i : Nat} (h : IsProxyOf x c p i m) (hread : m.HasReadParameters) :
    p.hasDefaults = m.hasDefaults := by
  obtain ⟨-, hsame, -⟩ := h.forwards hread
  unfold Method.hasDefaults
  rw [hsame]

theorem IsProxyOf.dispatchName {p m : Method} {i : Nat} (h : IsProxyOf x c p i m) :
    p.dispatchName = x.settings.names.proxy ++ m.name := by
  obtain ⟨-, -, rfl⟩ := h
  rfl

/-- Script names do not help methods that can be overridden: with default arguments, their proxies are overloads. -/
theorem fault_ne_none_of_overridesDefaults (hc : c.IsDeclared) (hparameters : ∀ m ∈ c.methods, m.HasReadParameters)
    (hcreates : (c.bearer .classType c.path x.isEnum).bool .createProxy = .ok true) {n : String}
    (h : c.OverridesDefaults n) : (c.derive x).fault ≠ none := by
  obtain ⟨i, j, m, k, hi, hj, hne, hm, hk, rfl, hname, hdefaults⟩ := h
  intro hfault
  obtain ⟨declared, made, hmade, -⟩ := exists_synthesized hc hfault
  have hproxies : ∀ q ∈ proxies x c, ∃ p, (c.methods ++ made)[p]? = some q := fun q hq =>
    List.getElem?_of_mem (List.mem_append_right _ (mem_synthesizedMethods_of_mem_proxies hcreates hmade hq))
  have hpm : IsProxyOf x c (proxyMethod x c i m) i m := ⟨hi, hm, rfl⟩
  have hpk : IsProxyOf x c (proxyMethod x c j k) j k := ⟨hj, hk, rfl⟩
  obtain ⟨p, hp⟩ := hproxies _ (mem_proxies hi hm)
  obtain ⟨q, hq⟩ := hproxies _ (mem_proxies hj hk)
  refine fault_ne_none_of_overloads hc hmade hp ?_ (j := q) ?_ hq ?_ hfault
  · rw [hpm.hasDefaults (hparameters m (List.mem_of_getElem? hi)), hdefaults]
  · rintro rfl
    have hkeys := congrArg Method.key? (Option.some.inj (hq.symm.trans hp))
    exact hne (Origin.method.inj (Prod.mk.inj (Option.some.inj hkeys)).1)
  · rw [hpm.dispatchName, hpk.dispatchName, hname]

theorem overridesDefaults_of_proxies (hparameters : ∀ m ∈ c.methods, m.HasReadParameters)
    (honce : (made.map Method.key?).Nodup) {p q : Nat} {a b : Method} (hp : made[p]? = some a)
    (hq : made[q]? = some b) (hne : q ≠ p) {i j : Nat} {m k : Method} (ha : IsProxyOf x c a i m)
    (hb : IsProxyOf x c b j k) (hdefaults : a.hasDefaults = true) {n : String}
    (haname : a.dispatchName = x.settings.names.proxy ++ n) (hbname : b.dispatchName = x.settings.names.proxy ++ n) :
    c.OverridesDefaults n := by
  rw [ha.dispatchName, String.append_right_inj] at haname
  rw [hb.dispatchName, String.append_right_inj] at hbname
  rw [ha.hasDefaults (hparameters m (List.mem_of_getElem? ha.1))] at hdefaults
  refine ⟨i, j, m, k, ha.1, hb.1, ?_, ha.2.1, hb.2.1, haname, hbname, hdefaults⟩
  rintro rfl
  -- The method has one proxy.
  have hkeys : (made.map Method.key?)[p]? = (made.map Method.key?)[q]? := by
    rw [List.getElem?_map, hp, List.getElem?_map, hq, Option.map_some, Option.map_some, ha.2.2, hb.2.2]
    rfl
  have hlt : p < (made.map Method.key?).length := by
    rw [List.length_map]
    exact (List.getElem?_eq_some_iff.mp hp).1
  exact hne ((List.getElem?_inj hlt honce).mp hkeys).symm

theorem IsDeclared.getElem?_of_key? (hc : c.IsDeclared) {p : Nat} {a : Method} {key : Origin × String}
    (hp : (c.methods ++ made)[p]? = some a) (hkey : a.key? = some key) :
    c.methods.length ≤ p ∧ made[p - c.methods.length]? = some a := by
  rw [List.getElem?_append] at hp
  split at hp
  · rw [Method.key?, (hc.methods a (List.mem_of_getElem? hp)).notMade] at hkey
    cases hkey
  · exact ⟨by omega, hp⟩

/-- Overloads with default arguments among the methods by the name of a proxy are proxies of methods of one name, or
one of them is not made from a method. -/
theorem overridesDefaults_or_of_fault (hc : c.IsDeclared) (hvalid : c.Valid)
    (hparameters : ∀ m ∈ c.methods, m.HasReadParameters) {f : Fault} (hf : (c.derive x).fault = some f) {n : String}
    (hmade : c.synthesizedMethods x = .ok made)
    (hcause : f.cause = .overloadWithDefaults (x.settings.names.proxy ++ n)) :
    c.OverridesDefaults n ∨ ∃ k ∈ c.methods ++ made, k.dispatchName = x.settings.names.proxy ++ n ∧
      ∀ j role, k.key? ≠ some (.method j, role) := by
  obtain ⟨made', hmade', honce, p, q, a, b, hp, hdefaults, ha, hne, hq, hb⟩ := overloads_of_fault hc hvalid hf hcause
  obtain rfl : made = made' := Except.ok.inj (hmade.symm.trans hmade')
  by_cases hak : ∃ i role, a.key? = some (.method i, role)
  · by_cases hbk : ∃ j role, b.key? = some (.method j, role)
    · obtain ⟨i, role, hak⟩ := hak
      obtain ⟨j, role', hbk⟩ := hbk
      obtain ⟨hple, hp⟩ := hc.getElem?_of_key? hp hak
      obtain ⟨hqle, hq⟩ := hc.getElem?_of_key? hq hbk
      have hproxies := synthesizedMethods_proxies x c made hmade
      obtain ⟨m, hm⟩ := hproxies a (List.mem_of_getElem? hp) i role hak
      obtain ⟨k, hk⟩ := hproxies b (List.mem_of_getElem? hq) j role' hbk
      exact .inl (overridesDefaults_of_proxies hparameters honce hp hq (by omega) hm hk hdefaults ha hb)
    · refine .inr ⟨b, List.mem_of_getElem? hq, hb, fun j role hkey => hbk ⟨j, role, hkey⟩⟩
  · exact .inr ⟨a, List.mem_of_getElem? hp, ha, fun i role hkey => hak ⟨i, role, hkey⟩⟩

/-- Script names resolve overloads.  In a class of an accepted header let every declared method that shares its name
with another one have a script name, and let the script names differ from each other and from the names of all methods.
Then no script name is taken, and no fault is about such a method.  A fault about what is made from one, its proxy,
comes from methods of its name that can be overridden, one with default arguments, or from a method that is no proxy and
has the name of one.  The former are a fault in every class that is to have a proxy, whatever script names they have. -/
theorem derive_resolved {r : Reader} {path : SourcePath} {text : String} {h : Header}
    (hread : r.read path text = .ok h) (hc : c ∈ h.classes) (hresolved : c.IsResolved x) :
    (∀ f, (c.derive x).fault = some f → f.cause ≠ .uniqueNameTaken ∧
      ∀ (i : Nat) (m : Method), c.IsOverloaded i → c.methods[i]? = some m →
        f.cause ≠ .overloadWithDefaults m.dispatchName ∧
        ∀ made, c.synthesizedMethods x = .ok made → ∀ p ∈ made, ∀ role, p.key? = some (.method i, role) →
          f.cause = .overloadWithDefaults p.dispatchName →
            c.OverridesDefaults m.name ∨
              ∃ k ∈ c.methods ++ made, k.dispatchName = p.dispatchName ∧ ∀ j role, k.key? ≠ some (.method j, role)) ∧
    ((c.bearer .classType c.path x.isEnum).bool .createProxy = .ok true →
      ∀ n, c.OverridesDefaults n → (c.derive x).fault ≠ none) := by
  have hdeclared := Reader.isDeclared_of_mem_read hread hc
  have hvalid := (Reader.readFrom_of_mem_classes hread hc).valid
  have hparameters := Reader.parameters_of_mem_read hread hc
  refine ⟨fun f hf => ⟨hresolved.cause_ne_uniqueNameTaken hdeclared hvalid hf, fun i m hover hm => ?_⟩, ?_⟩
  · refine ⟨hresolved.cause_ne_overload hdeclared hvalid hf hover hm, fun made hmade p hp role hkey hcause => ?_⟩
    obtain ⟨m', hproxy⟩ := synthesizedMethods_proxies x c made hmade p hp i role hkey
    obtain rfl : m = m' := Option.some.inj (hm.symm.trans hproxy.1)
    rw [hproxy.dispatchName] at hcause ⊢
    exact overridesDefaults_or_of_fault hdeclared hvalid hparameters hf hmade hcause
  · exact fun hcreates n hn => fault_ne_none_of_overridesDefaults hdeclared hparameters hcreates hn

/-! ### A class that is resolved -/

theorem isResolved_of_lists {declared : List (String × Option String)} {names : List String}
    (hdeclared : c.methods.map (fun m => (m.name, m.givenName?)) = declared)
    (hmade : (c.synthesizedMethods x).toOption.map (·.map (·.name)) = some names)
    (hgiven : ∀ p ∈ declared, p.2 ≠ none) (hdistinct : (declared.filterMap (·.2)).Nodup)
    (hfresh : ∀ p ∈ declared, ∀ n ∈ declared.map (·.1) ++ names, p.2 ≠ some n) : c.IsResolved x := by
  have hmem : ∀ m ∈ c.methods, (m.name, m.givenName?) ∈ declared := fun m hm =>
    hdeclared ▸ List.mem_map_of_mem (f := fun m : Method => (m.name, m.givenName?)) hm
  refine ⟨fun i m _ hm => hgiven _ (hmem m (List.mem_of_getElem? hm)), ?_, ?_, ?_⟩
  · rw [← hdeclared, List.filterMap_map] at hdistinct
    exact hdistinct
  · intro m hm k hk
    exact hfresh _ (hmem m hm) k.name (List.mem_append_left _ (List.mem_map_of_mem (f := (·.1)) (hmem k hk)))
  · intro made hok m hm k hk
    rw [hok] at hmade
    obtain rfl : made.map (·.name) = names := Option.some.inj hmade
    exact hfresh _ (hmem m hm) k.name (List.mem_append_right _ (List.mem_map_of_mem hk))

/-- Two methods of one name with script names, which can be overridden, the first with a default argument. -/
theorem exists_resolved_fault :
    ∃ (h : Header) (c : Class) (f : Fault) (m p : Method) (made : List Method),
      (Reader.ofSettings {}).read ⟨.relative, ["Unit.h"]⟩
          ("RClass()\nstruct Unit \x7b\nRBody();\nRMethod(UniqueName = A)\nvirtual void Run(int a = 1);\n" ++
            "RMethod(UniqueName = B)\nvirtual void Run(float b);\n\x7d;") = .ok h ∧
        c ∈ h.classes ∧ c.IsResolved ⟨{}, fun _ => none⟩ ∧ (c.derive ⟨{}, fun _ => none⟩).fault = some f ∧
        c.IsOverloaded 0 ∧ c.methods[0]? = some m ∧ c.synthesizedMethods ⟨{}, fun _ => none⟩ = .ok made ∧ p ∈ made ∧
        p.key? = some (.method 0, "Proxy") ∧ f.cause = .overloadWithDefaults p.dispatchName := by
  have hrun : ((Reader.ofSettings {}).read ⟨.relative, ["Unit.h"]⟩
      ("RClass()\nstruct Unit \x7b\nRBody();\nRMethod(UniqueName = A)\nvirtual void Run(int a = 1);\n" ++
        "RMethod(UniqueName = B)\nvirtual void Run(float b);\n\x7d;")).toOption.any
      (fun h => h.classes.any fun c => decide (
        c.methods.map (fun m => (m.name, m.givenName?)) = [("Run", some "A"), ("Run", some "B")] ∧
        (c.synthesizedMethods ⟨{}, fun _ => none⟩).toOption.map (·.map fun p => (p.name, p.key?, p.dispatchName)) =
          some [("_proxy_Run", some (.method 0, "Proxy"), "_proxy_Run"),
            ("_proxy_Run", some (.method 1, "Proxy"), "_proxy_Run")] ∧
        (c.derive ⟨{}, fun _ => none⟩).fault.map (·.cause) = some (.overloadWithDefaults "_proxy_Run"))) = true := by
    rw [Reader.read_ofList_append]
    decide +kernel
  obtain ⟨h, hread, hclass⟩ := Checked.exists_ok_of_any hrun
  obtain ⟨c, hc, hderived⟩ := List.any_eq_true.mp hclass
  obtain ⟨hdeclared, hmade, hfault⟩ := of_decide_eq_true hderived
  obtain ⟨f, hf, hcause⟩ := Option.map_eq_some_iff.mp hfault
  obtain ⟨made, hok, hlist⟩ := Option.map_eq_some_iff.mp hmade
  have hok := toOption_eq_some.mp hok
  have hat : ∀ i : Nat, c.methods[i]?.map (fun m => (m.name, m.givenName?)) =
      [("Run", some "A"), ("Run", some "B")][i]? := by
    intro i
    rw [← hdeclared, List.getElem?_map]
  obtain ⟨m, hm, hmname⟩ := Option.map_eq_some_iff.mp (hat 0)
  obtain ⟨k, hk, hkname⟩ := Option.map_eq_some_iff.mp (hat 1)
  obtain ⟨p, hp, hpname⟩ := List.mem_map.mp (hlist ▸ List.mem_cons_self)
  obtain ⟨-, hpname⟩ := Prod.mk.inj hpname
  obtain ⟨hkey, hdispatch⟩ := Prod.mk.inj hpname
  refine ⟨h, c, f, m, p, made, hread, hc, ?_, hf, ?_, hm, hok, hp, hkey, by rw [hcause, hdispatch]⟩
  · have hnames := congrArg (Option.map (List.map Prod.fst)) hmade
    rw [Option.map_map] at hnames
    have hmade : (c.synthesizedMethods ⟨{}, fun _ => none⟩).toOption.map (·.map (·.name)) =
        some ["_proxy_Run", "_proxy_Run"] := by
      simpa [Function.comp_def] using hnames
    exact isResolved_of_lists hdeclared hmade (by decide) (by decide) (by decide)
  · exact ⟨1, m, k, hm, by decide, hk, (Prod.mk.inj hkname).1.trans (Prod.mk.inj hmname).1.symm⟩

/-- The fault is about the proxies, and neither about a script name nor about a declared method. -/
theorem derive_resolved_proxies :
    ∃ (h : Header) (c : Class) (f : Fault) (m : Method),
      (Reader.ofSettings {}).read ⟨.relative, ["Unit.h"]⟩
          ("RClass()\nstruct Unit \x7b\nRBody();\nRMethod(UniqueName = A)\nvirtual void Run(int a = 1);\n" ++
            "RMethod(UniqueName = B)\nvirtual void Run(float b);\n\x7d;") = .ok h ∧
        c ∈ h.classes ∧ c.IsResolved ⟨{}, fun _ => none⟩ ∧ (c.derive ⟨{}, fun _ => none⟩).fault = some f ∧
        c.methods[0]? = some m ∧ f.cause ≠ .uniqueNameTaken ∧ f.cause ≠ .overloadWithDefaults m.dispatchName := by
  obtain ⟨h, c, f, m, p, made, hread, hc, hresolved, hf, hover, hm, hmade, hp, hkey, hcause⟩ := exists_resolved_fault
  obtain ⟨hfaults, -⟩ := derive_resolved hread hc hresolved
  obtain ⟨htaken, hmethods⟩ := hfaults f hf
  exact ⟨h, c, f, m, hread, hc, hresolved, hf, hm, htaken, (hmethods 0 m hover hm).1⟩

/-- Script names do not keep the proxies of overloads apart. -/
theorem not_resolved_by_script_names :
    ¬∀ (r : Reader) (path : SourcePath) (text : String) (h : Header) (c : Class) (x : PlanContext),
      r.read path text = .ok h → c ∈ h.classes → c.IsResolved x →
      ∀ f, (c.derive x).fault = some f → f.cause ≠ .uniqueNameTaken ∧
        ∀ (i : Nat) (m : Method), c.IsOverloaded i → c.methods[i]? = some m →
          f.cause ≠ .overloadWithDefaults m.dispatchName ∧
          ∀ made, c.synthesizedMethods x = .ok made → ∀ p ∈ made, ∀ role, p.key? = some (.method i, role) →
            f.cause ≠ .overloadWithDefaults p.dispatchName := by
  intro hall
  obtain ⟨h, c, f, m, p, made, hread, hc, hresolved, hf, hover, hm, hmade, hp, hkey, hcause⟩ := exists_resolved_fault
  obtain ⟨-, hmethods⟩ := hall _ _ _ h c _ hread hc hresolved f hf
  obtain ⟨-, hproxies⟩ := hmethods 0 m hover hm
  exact hproxies made hmade p hp "Proxy" hkey hcause

end Class

end HeaderReflection
