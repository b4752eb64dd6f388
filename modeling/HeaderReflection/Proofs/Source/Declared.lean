import HeaderReflection.Proofs.Source.Steps

/-! # What a header declares

Reading a header makes no methods of its own accord, and no field, method or class that was just read has
anything made from it.

* The flags of a declared method are those that can be written in front of it or behind it and those that
  attributes raise (`MethodText.writtenFlags`, `Reader.methodOf_isDeclared`), so a declared method is not
  artificial.
* A class begins without a proxy, and no attribute gives it one while it is read
  (`Reader.classFlags_noProxy`).
* Claiming properties changes the properties of a class and nothing else (`Reader.claimProperties_yields`).

So nothing in a class that was just read is synthesized (`Reader.isDeclared_of_mem_read`), which is where
every statement on derived classes begins. -/

namespace HeaderReflection

open Checked

/-! ### Flags that are written -/

namespace MethodText

/-- The flags that the text of a method can raise. -/
def writtenFlags : List MethodFlag :=
  [.virtual, .static, .inlined, .explicit, .const, .final, .noexcept, .abstract]

/-- Only flags that can be written are raised. -/
def IsWritten (flags : FlagSet MethodFlag) : Prop := ∀ g, flags.has g = true → g ∈ writtenFlags

theorem isWritten_insert {flags : FlagSet MethodFlag} {g : MethodFlag} (hflags : IsWritten flags)
    (hg : g ∈ writtenFlags) : IsWritten (flags.insert g) := by
  intro k hk
  rw [FlagSet.has_insert, Bool.or_eq_true, decide_eq_true_eq] at hk
  rcases hk with rfl | hk
  · exact hg
  · exact hflags k hk

theorem isWritten_insertIf {flags : FlagSet MethodFlag} {g : MethodFlag} (b : Bool)
    (hflags : IsWritten flags) (hg : g ∈ writtenFlags) : IsWritten (flags.insertIf b g) := by
  cases b with
  | true => exact isWritten_insert hflags hg
  | false => exact hflags

theorem isWritten_foldl {fs : List MethodFlag} {flags : FlagSet MethodFlag} (hflags : IsWritten flags)
    (hfs : ∀ g ∈ fs, g ∈ writtenFlags) : IsWritten (fs.foldl (fun s f => s.insert f) flags) := by
  induction fs generalizing flags with
  | nil => exact hflags
  | cons g fs ih =>
      obtain ⟨hg, hfs⟩ := List.forall_mem_cons.mp hfs
      exact ih (isWritten_insert hflags hg) hfs

theorem readLeading_yields : readLeading.Yields fun m => IsWritten m.flags := by
  refine .bind (.any _) fun native _ => .iterate ?_ ?_
  · intro m hm
    refine .bind (.swallowOneOf (P := (· ∈ writtenFlags)) (by decide)) fun o ho => ?_
    cases o with
    | some f => exact .pure (isWritten_insert hm (ho f rfl))
    | none =>
        refine .bind (.any _) fun _ _ => .ite (fun _ => ?_) fun _ => .pure hm
        exact .bind (.any _) fun _ _ => .pure hm
  · intro g hg
    simp at hg

theorem readTrailing_yields {flags : FlagSet MethodFlag} (hflags : IsWritten flags) :
    (readTrailing flags).Yields IsWritten := by
  refine .iterate (fun fs hfs => ?_) hflags
  refine .bind (.swallowOneOf (P := fun gs => ∀ g ∈ gs, g ∈ writtenFlags) (by decide)) fun o ho => ?_
  cases o with
  | some gs =>
      have hraised := isWritten_foldl hfs (ho gs rfl)
      refine .ite (fun _ => ?_) fun _ => .pure hraised
      refine .bind (.any _) fun _ _ => .ite (fun _ => ?_) fun _ => .pure hraised
      exact .bind (.any _) fun _ _ => .pure hraised
  | none =>
      refine .bind (.any _) fun _ _ => .ite (fun _ => .pure hfs) fun _ => ?_
      exact .bind (.any _) fun _ _ => .ite (fun _ => .pure hfs) fun _ => .pure hfs

theorem readArrow_yields {flags : FlagSet MethodFlag} (hflags : IsWritten flags)
    (returnType : List Char) : (readArrow flags returnType).Yields fun p => IsWritten p.1 := by
  refine .bind (.any _) fun _ _ => .ite (fun _ => ?_) fun _ => .pure hflags
  refine .bind (.any _) fun _ _ => ?_
  refine .bind (readTrailing_yields (isWritten_insertIf _ hflags (by decide))) fun fs hfs => ?_
  exact .pure hfs

theorem readAssigned_yields {flags : FlagSet MethodFlag} (hflags : IsWritten flags) :
    (readAssigned flags).Yields IsWritten := by
  refine .bind (.any _) fun _ _ => .ite (fun _ => ?_) fun _ => .pure hflags
  refine .bind (.any _) fun isAbstract _ => ?_
  exact readTrailing_yields (isWritten_insertIf isAbstract hflags (by decide))

theorem read_yields : read.Yields fun t => IsWritten t.flags := by
  refine .bind readLeading_yields fun m hm => ?_
  refine .bind (.any _) fun _ _ => .ite (fun _ => .throw_bind _) fun _ => ?_
  refine .bind (.any _) fun returnType _ => .ite (fun _ => .throw_bind _) fun _ => ?_
  refine .bind (.any _) fun name _ => .ite (fun _ => .throw_bind _) fun _ => ?_
  refine .bind (.any _) fun _ _ => .bind (.any _) fun _ _ => .ite (fun _ => ?_) fun _ => .throw_bind _
  refine .bind (.any _) fun _ _ => .bind (readTrailing_yields hm) fun fs hfs => ?_
  refine .bind (readArrow_yields hfs returnType) fun p hp => ?_
  exact .bind (readAssigned_yields hp) fun gs hgs => .pure hgs

end MethodText

/-! ### Declared classes -/

/-- A header declares the method, and nothing was made from it. -/
structure Method.IsDeclared (m : Method) : Prop where
  unmade : m.synthesized = []
  notArtificial : m.flags.has .artificial = false
  notMade : m.synthesis = none

/-- Nothing was made from the class or from its members, and it has no proxy. -/
structure Class.IsDeclared (c : Class) : Prop where
  unmade : c.synthesized = []
  noProxy : c.flags.has .hasProxy = false
  fields : ∀ f ∈ c.fields, f.synthesized = []
  methods : ∀ m ∈ c.methods, m.IsDeclared

/-! ### Reading -/

namespace Reader

variable {r : Reader}

theorem methodOf_isDeclared (site : MarkerSite) (owner : Class) (access : Access) (text : List Char) :
    Yields (r.methodOf site owner access text) Method.IsDeclared := by
  refine .bind (.lift fun t ht => MethodText.read_yields.of_eval ht) fun t hwritten => ?_
  refine .bind (.any _) fun _ _ => .bind (.any _) fun _ _ => .bind (.any _) fun _ _ => ?_
  refine .bind (.any _) fun _ _ => .bind (.any _) fun _ _ => .bind (.any _) fun _ _ => ?_
  have hraised : t.flags.has .artificial = false :=
    Bool.eq_false_iff.mpr fun hr => absurd (hwritten _ hr) (by decide)
  exact .pure ⟨rfl, by simp [hraised], rfl⟩

theorem fieldOf_unmade (site : MarkerSite) (owner : Class) (access : Access) (text : List Char) :
    Yields (r.fieldOf site owner access text) fun f => f.synthesized = [] := by
  refine .bind (.any _) fun _ _ => .bind (.any _) fun _ _ => .bind (.any _) fun _ _ => ?_
  refine .bind (.any _) fun _ _ => .bind (.any _) fun _ _ => .bind (.any _) fun _ _ => ?_
  exact .bind (.any _) fun _ _ => .bind (.any _) fun _ _ => .pure rfl

theorem classFlags_noProxy (b : Bearer) (isStruct : Bool) :
    Yields (classFlags b isStruct) fun flags => flags.has .hasProxy = false := by
  refine .bind (.any _) fun _ _ => .bind (.any _) fun _ _ => .bind (.any _) fun _ _ => ?_
  refine .bind (.any _) fun _ _ => .bind (.any _) fun _ _ => .pure ?_
  simp [FlagSet.ofList]

theorem classOf_isDeclared (site : MarkerSite) (text : List Char) :
    Yields (r.classOf site text) Class.IsDeclared := by
  refine .bind (.any _) fun head _ => .bind (.any _) fun b _ => ?_
  refine .bind (classFlags_noProxy b head.isStruct) fun flags hflags => ?_
  refine .ite (fun _ => .throw_bind _) fun _ => ?_
  refine .bind (.any _) fun _ _ => .bind (.any _) fun _ _ => .bind (.any _) fun _ _ => ?_
  refine .bind (.any _) fun _ _ => .bind (.any _) fun _ _ => ?_
  refine .bind (.any _) fun _ _ => .bind (.any _) fun _ _ => .pure ?_
  exact ⟨rfl, hflags, fun f hf => absurd hf List.not_mem_nil, fun m hm => absurd hm List.not_mem_nil⟩

theorem bindAccessor_yields (c : Class) (role : AccessorRole) (name : String) (m : MethodLink) :
    Yields (c.bindAccessor role name m) fun d => ∃ ps, d = { c with properties := ps } := by
  intro d h
  unfold Class.bindAccessor at h
  cases hp : (c.property name).bind role m with
  | error e => simp [hp] at h
  | ok p =>
      simp only [hp, Except.ok.injEq] at h
      exact ⟨_, h.symm⟩

theorem claimGetter_yields (b : Bearer) (c : Class) (m : Method) :
    Yields (claimGetter b c m) fun d => ∃ ps, d = { c with properties := ps } := by
  refine .bind (.any _) fun getter _ => ?_
  cases getter with
  | none => exact .pure ⟨_, rfl⟩
  | some p => exact .lift (bindAccessor_yields c .getter p m.link)

theorem claimSetter_yields (b : Bearer) (c : Class) (m : Method) :
    Yields (claimSetter b c m) fun d => ∃ ps, d = { c with properties := ps } := by
  refine .bind (.any _) fun setter _ => ?_
  cases setter with
  | none => exact .pure ⟨_, rfl⟩
  | some p => exact .ite (fun _ => .throw_bind _) fun _ => .lift (bindAccessor_yields c .setter p m.link)

/-- Claiming properties changes the properties of a class and nothing else. -/
theorem claimProperties_yields (c : Class) (m : Method) :
    Yields (r.claimProperties c m) fun d => ∃ ps, d = { c with properties := ps } := by
  refine .bind (claimGetter_yields _ c m) ?_
  rintro d ⟨ps, rfl⟩ e he
  obtain ⟨qs, rfl⟩ := claimSetter_yields _ _ m e he
  exact ⟨qs, rfl⟩

theorem isDeclared_of_mem_read {path : SourcePath} {text : String} {h : Header}
    (hread : r.read path text = .ok h) {c : Class} (hc : c ∈ h.classes) : c.IsDeclared := by
  refine read_classes (P := Class.IsDeclared) ⟨?_, ?_, ?_, ?_⟩ hread c hc
  · intro site text c _ hc
    exact classOf_isDeclared site text c hc
  · intro c line hc
    exact ⟨hc.unmade, hc.noProxy, hc.fields, hc.methods⟩
  · intro site access text c f _ hc hf
    refine ⟨hc.unmade, hc.noProxy, ?_, hc.methods⟩
    intro g hg
    rcases List.mem_append.mp hg with hg | hg
    · exact hc.fields g hg
    · exact List.mem_singleton.mp hg ▸ fieldOf_unmade site c access text f hf
  · intro site access text c d m _ hc hm hd
    obtain ⟨ps, rfl⟩ := claimProperties_yields c m d hd
    refine ⟨hc.unmade, hc.noProxy, hc.fields, ?_⟩
    intro k hk
    rcases List.mem_append.mp hk with hk | hk
    · exact hc.methods k hk
    · exact List.mem_singleton.mp hk ▸ methodOf_isDeclared site c access text m hm

end Reader

end HeaderReflection
