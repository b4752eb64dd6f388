import HeaderReflection.Proofs.Checked
import HeaderReflection.Proofs.Source.Made

/-! # Declarations at other lines

A declaration depends on its line only in that the line identifies it.  So what is declared when every line
has another number is what was declared before, with the numbers exchanged and the identifiers computed anew.

* `renumber` says so for each kind of declaration.  The members of a class are identified by its path and
  their own lines, and a property by the line of its class.
* Reading a declaration at another line does just that, and fails where it failed: `Reader.classOf_renumber`,
  `Reader.fieldOf_renumber`, `Reader.methodOf_renumber`, `Reader.claimProperties_renumber`,
  `Reader.enumOf_renumber` and `Reader.enumeratorOf_renumber`.
* An attribute is looked up for its bearer, whose line is needed only where something is wrong
  (`Bearer.lookup?_atLine`), and faults are not compared.

A method is linked to a property by its identifier, which is a new one.  Whether a side of a property is free
does not depend on it (`Property.bind_renumber`). -/

namespace HeaderReflection

open Checked

namespace Keyed

variable {α β : Type}

/-- Replaces every value. -/
def mapValues (f : α → β) (m : Keyed α) : Keyed β := m.map fun p => (p.1, f p.2)

theorem get?_mapValues (f : α → β) (m : Keyed α) (k : String) : (m.mapValues f).get? k = (m.get? k).map f := by
  induction m with
  | nil => rfl
  | cons p m ih =>
      have hcons : mapValues f (p :: m) = (p.1, f p.2) :: mapValues f m := rfl
      rw [hcons, get?_cons, get?_cons]
      split
      · rfl
      · exact ih

theorem mapValues_put (f : α → β) (m : Keyed α) (k : String) (v : α) :
    (m.put k v).mapValues f = (m.mapValues f).put k (f v) := by
  induction m with
  | nil => rfl
  | cons p m ih =>
      obtain ⟨j, w⟩ := p
      unfold put
      have hcons : mapValues f ((j, w) :: m) = (j, f w) :: mapValues f m := rfl
      by_cases hj : j = k
      · rw [hcons, if_pos hj]
        simp only [mapValues, List.map_cons, if_pos hj]
      · rw [hcons, if_neg hj]
        simp only [if_neg hj, ← ih]
        rfl

end Keyed

/-! ### Other line numbers

`ρ` gives every line its new number, and `path` is that of the header. -/

section Renumber

variable (path : SourcePath) (ρ : Nat → Nat)

/-- The declaration at its new line, identified by that line. -/
def Declaration.renumber (d : Declaration) : Declaration :=
  { d with line := ρ d.line, uid := Uid.compute path (ρ d.line) }

/-- The link to a declared method at its new line. -/
def MethodLink.renumber (m : MethodLink) : MethodLink :=
  { m with line := ρ m.line, uid := Uid.compute path (ρ m.line) }

/-- The field at its new line. -/
def Field.renumber (f : Field) : Field := { f with toDeclaration := f.toDeclaration.renumber path ρ }

/-- The method at its new line. -/
def Method.renumber (m : Method) : Method := { m with toDeclaration := m.toDeclaration.renumber path ρ }

/-- The enumerator at its new line. -/
def Enumerator.renumber (x : Enumerator) : Enumerator :=
  { x with toDeclaration := x.toDeclaration.renumber path ρ }

/-- The property of a class at the given new line, bound to methods at their new lines. -/
def Property.renumber (line : Nat) (p : Property) : Property :=
  { p with
    uid := Uid.compute path line ["property", p.name]
    getter := p.getter.map (·.renumber path ρ)
    setter := p.setter.map (·.renumber path ρ) }

end Renumber

section Renumber

variable (ρ : Nat → Nat)

/-- The class and its members at their new lines. -/
def Class.renumber (c : Class) : Class :=
  { c with
    toDeclaration := c.toDeclaration.renumber c.path ρ
    fields := c.fields.map (·.renumber c.path ρ)
    methods := c.methods.map (·.renumber c.path ρ)
    properties := c.properties.mapValues (·.renumber c.path ρ (ρ c.line))
    bodyLine := ρ c.bodyLine }

/-- The enum and its enumerators at their new lines. -/
def Enumeration.renumber (e : Enumeration) : Enumeration :=
  { e with
    toDeclaration := e.toDeclaration.renumber e.path ρ
    enumerators := e.enumerators.map (·.renumber e.path ρ) }

/-- The header with everything in it at its new line. -/
def Header.renumber (h : Header) : Header :=
  { h with classes := h.classes.map (·.renumber ρ), enums := h.enums.map (·.renumber ρ) }

/-- The site of a marker at its new line. -/
def MarkerSite.renumber (site : MarkerSite) : MarkerSite := { site with line := ρ site.line }

/-- The open body of an enum at its new line. -/
def EnumBody.renumber (body : EnumBody) : EnumBody := { body with declared := body.declared.renumber ρ }

end Renumber

/-! ### Attributes

A bearer knows its line for the faults of its attributes alone. -/

/-- The bearer at another line. -/
def Bearer.atLine (b : Bearer) (n : Int) : Bearer := { b with line := n }

/-- The fault at another line. -/
def Fault.atLine (n : Int) (f : Fault) : Fault := { f with line := n }

namespace Bearer

variable (b : Bearer) (n : Int) (isEnum : String → Bool)

theorem lookup?_atLine (a : Attribute) :
    (b.atLine n).lookup? isEnum a = (b.lookup? isEnum a).mapError (Fault.atLine n) := by
  have hfind : (b.atLine n).find? a = b.find? a := rfl
  have hkind : (b.atLine n).kind = b.kind := rfl
  unfold lookup?
  rw [hfind, hkind]
  cases b.find? a with
  | none => rfl
  | some v =>
      dsimp only
      cases a.fault? isEnum b.kind v with
      | none => rfl
      | some f => rfl

theorem alike_lookup? (a : Attribute) : Alike Eq (b.lookup? isEnum a) ((b.atLine n).lookup? isEnum a) :=
  b.lookup?_atLine n isEnum a ▸ .mapError _ _

theorem alike_lookup (a : Attribute) : Alike Eq (b.lookup isEnum a) ((b.atLine n).lookup isEnum a) :=
  (b.alike_lookup? n isEnum a).map fun _ _ h => h ▸ rfl

theorem alike_bool? (a : Attribute) : Alike Eq (b.bool? a) ((b.atLine n).bool? a) :=
  (b.alike_lookup? n b.isEnum a).map fun _ _ h => h ▸ rfl

theorem alike_bool (a : Attribute) : Alike Eq (b.bool a) ((b.atLine n).bool a) :=
  (b.alike_lookup n b.isEnum a).map fun _ _ h => h ▸ rfl

theorem alike_string? (a : Attribute) : Alike Eq (b.string? a) ((b.atLine n).string? a) :=
  (b.alike_lookup? n b.isEnum a).map fun _ _ h => h ▸ rfl

theorem alike_mark (a : Attribute) : Alike Eq (b.mark a) ((b.atLine n).mark a) :=
  (b.alike_lookup n b.isEnum a).map fun _ _ h => h ▸ rfl

theorem alike_object (a : Attribute) : Alike Eq (b.object a) ((b.atLine n).object a) :=
  (b.alike_lookup? n b.isEnum a).map fun _ _ h => h ▸ rfl

theorem memberFault?_atLine (deferred : List Attribute) (key : String) (v : Value) :
    (b.atLine n).memberFault? isEnum deferred key v =
      (b.memberFault? isEnum deferred key v).map (Fault.atLine n) := by
  have hkind : (b.atLine n).kind = b.kind := rfl
  unfold memberFault?
  rw [hkind]
  split
  · rfl
  · split
    · rfl
    · split
      · rfl
      · rw [Option.map_map]
        rfl

theorem alike_validate (deferred : List Attribute) :
    Alike Eq (b.validate isEnum deferred) ((b.atLine n).validate isEnum deferred) := by
  have hfault : ((b.atLine n).attributes.findSome? fun m => (b.atLine n).memberFault? isEnum deferred m.1 m.2) =
      (b.attributes.findSome? fun m => b.memberFault? isEnum deferred m.1 m.2).map (Fault.atLine n) := by
    rw [List.map_findSome?]
    exact congrArg (b.attributes.findSome? ·) (funext fun m => b.memberFault?_atLine n isEnum deferred m.1 m.2)
  unfold validate
  rw [hfault]
  cases b.attributes.findSome? fun m => b.memberFault? isEnum deferred m.1 m.2 with
  | none => exact .ok rfl
  | some f => exact .error _ _

end Bearer

namespace Reader

variable {r : Reader} {ρ : Nat → Nat} {site : MarkerSite}

theorem checkedBearer_renumber (site : MarkerSite) (k : DeclarationKind) (bag : Bag) :
    Alike (fun b b' => b' = b.atLine (ρ site.line)) (r.checkedBearer site k bag)
      (r.checkedBearer (site.renumber ρ) k bag) :=
  .bindSame (Bearer.alike_validate _ _ _ _) fun _ => .pure rfl

theorem alike_classFlags (b : Bearer) (n : Int) (isStruct : Bool) :
    Alike Eq (classFlags b isStruct) (classFlags (b.atLine n) isStruct) := by
  refine .bindSame (b.alike_bool n _) fun _ => .bindSame (b.alike_bool n _) fun _ => ?_
  refine .bindSame (b.alike_bool n _) fun _ => .bindSame (b.alike_bool n _) fun _ => ?_
  exact .bindSame (b.alike_bool n _) fun _ => .pure rfl

theorem alike_choices (b : Bearer) (n : Int) :
    Alike Eq (FieldChoices.ofBearer b) (FieldChoices.ofBearer (b.atLine n)) := by
  refine .bindSame (b.alike_bool? n _) fun _ => .bindSame (b.alike_bool? n _) fun _ => ?_
  refine .bindSame (b.alike_bool? n _) fun _ => .bindSame (b.alike_bool? n _) fun _ => ?_
  refine .bindSame (b.alike_bool? n _) fun _ => .bindSame (b.alike_bool? n _) fun _ => ?_
  refine .bindSame (b.alike_bool? n _) fun _ => .bindSame (b.alike_bool? n _) fun _ => ?_
  refine .bindSame (b.alike_bool? n _) fun _ => .bindSame (b.alike_bool? n _) fun _ => ?_
  exact .bindSame (b.alike_bool? n _) fun _ => .bindSame (b.alike_bool? n _) fun _ => .pure rfl

/-! ### Declarations -/

theorem classOf_renumber (hzero : ρ 0 = 0) (text : List Char) :
    Alike (fun c d => c.path = site.path ∧ d = c.renumber ρ) (r.classOf site text)
      (r.classOf (site.renumber ρ) text) := by
  refine .bindSame (.refl _) fun head => .bind (checkedBearer_renumber site _ _) ?_
  rintro b _ rfl
  refine .bindSame (alike_classFlags b _ _) fun flags => .ite (fun _ => .throw_bind _ _) fun _ => ?_
  refine .bindSame (b.alike_string? _ _) fun _ => .bindSame (b.alike_string? _ _) fun _ => ?_
  refine .bindSame (b.alike_string? _ _) fun _ => .bindSame (b.alike_object _ _) fun _ => ?_
  refine .bindSame (b.alike_object _ _) fun _ => .bindSame (.refl _) fun _ => .bindSame (.refl _) fun _ => ?_
  refine .pure ⟨rfl, ?_⟩
  -- its body is not open, and no line is the new one of none
  unfold Class.renumber
  rw [hzero]
  rfl

/-- A field at another line of a class at another line is declared alike. -/
theorem fieldOf_renumber (owner : Class) (access : Access) (text : List Char) :
    Alike (fun f g => g = f.renumber site.path ρ) (r.fieldOf site owner access text)
      (r.fieldOf (site.renumber ρ) (owner.renumber ρ) access text) := by
  have howner : (owner.renumber ρ).bearer .classType (owner.renumber ρ).path r.isEnum =
      (owner.bearer .classType owner.path r.isEnum).atLine (ρ owner.line) := rfl
  refine .bindSame (.refl _) fun t => .bind (checkedBearer_renumber site _ _) ?_
  rintro b _ rfl
  refine .bindSame (b.alike_string? _ _) fun _ => .bindSame (b.alike_string? _ _) fun _ => ?_
  refine .bindSame (b.alike_string? _ _) fun _ => .bindSame (alike_choices b _) fun _ => ?_
  dsimp only
  rw [howner]
  refine .bindSame (Bearer.alike_bool _ _ _) fun _ => .bindSame (Bearer.alike_bool _ _ _) fun _ => .pure rfl

theorem methodOf_renumber (owner : Class) (access : Access) (text : List Char) :
    Alike (fun m k => k = m.renumber site.path ρ) (r.methodOf site owner access text)
      (r.methodOf (site.renumber ρ) (owner.renumber ρ) access text) := by
  refine .bindSame (.refl _) fun t => .bind (checkedBearer_renumber site _ _) ?_
  rintro b _ rfl
  refine .bindSame (b.alike_string? _ _) fun _ => .bindSame (b.alike_string? _ _) fun _ => ?_
  refine .bindSame (b.alike_bool _ _) fun _ => .bindSame (b.alike_mark _ _) fun _ => ?_
  exact .bindSame (b.alike_bool? _ _) fun _ => .pure rfl

theorem enumOf_renumber (head : EnumHead) :
    Alike (fun e d => d = e.renumber ρ) (r.enumOf site head) (r.enumOf (site.renumber ρ) head) := by
  refine .bind (checkedBearer_renumber site _ _) ?_
  rintro b _ rfl
  refine .bindSame (b.alike_string? _ _) fun _ => .bindSame (b.alike_string? _ _) fun _ => ?_
  refine .bindSame (b.alike_string? _ _) fun _ => .bindSame (b.alike_object _ _) fun _ => ?_
  refine .bindSame (.refl _) fun _ => .bindSame (b.alike_bool _ _) fun _ => ?_
  exact .bindSame (b.alike_bool _ _) fun _ => .pure rfl

theorem enumeratorOf_renumber (body : EnumBody) (line : Nat) (text : List Char) :
    Alike (fun x y => y = x.renumber body.declared.path ρ) (r.enumeratorOf body line text)
      (r.enumeratorOf (body.renumber ρ) (ρ line) text) := by
  refine .bindSame (.refl _) fun t => ?_
  refine .bind (checkedBearer_renumber ⟨body.declared.path, line, _, _⟩ _ _) ?_
  rintro b _ rfl
  exact .bindSame (b.alike_string? _ _) fun _ => .bindSame (b.alike_string? _ _) fun _ => .pure rfl

/-! ### Properties -/

end Reader

theorem Property.accessor_renumber (path : SourcePath) (ρ : Nat → Nat) (n : Nat) (p : Property)
    (role : AccessorRole) : (p.renumber path ρ n).accessor role = (p.accessor role).map (·.renumber path ρ) := by
  cases role <;> rfl

/-- A side of a property is free whatever the lines are. -/
theorem Property.bind_renumber (path : SourcePath) (ρ : Nat → Nat) (n : Nat) (p : Property)
    (role : AccessorRole) (m : MethodLink) :
    Alike (fun q q' => q' = q.renumber path ρ n) (p.bind role m)
      ((p.renumber path ρ n).bind role (m.renumber path ρ)) := by
  unfold Property.bind
  rw [p.accessor_renumber]
  cases p.accessor role with
  | some taken => exact .error _ _
  | none =>
      refine .ok ?_
      cases role <;> rfl

theorem Class.property_renumber (ρ : Nat → Nat) (c : Class) (name : String) :
    (c.renumber ρ).property name = (c.property name).renumber c.path ρ (ρ c.line) := by
  have hget : (c.renumber ρ).properties.get? name =
      (c.properties.get? name).map (·.renumber c.path ρ (ρ c.line)) := Keyed.get?_mapValues _ _ _
  unfold Class.property
  rw [hget]
  cases c.properties.get? name with
  | none => rfl
  | some p => rfl

theorem Class.bindAccessor_eq (c : Class) (role : AccessorRole) (name : String) (m : MethodLink) :
    c.bindAccessor role name m =
      ((c.property name).bind role m).map fun p => { c with properties := c.properties.put name p } := by
  unfold Class.bindAccessor
  cases (c.property name).bind role m with
  | error e => rfl
  | ok p => rfl

theorem Class.bindAccessor_renumber (ρ : Nat → Nat) (c : Class) (role : AccessorRole) (name : String)
    (m : MethodLink) :
    Alike (fun d d' => (∃ ps, d = { c with properties := ps }) ∧ d' = d.renumber ρ) (c.bindAccessor role name m)
      ((c.renumber ρ).bindAccessor role name (m.renumber c.path ρ)) := by
  rw [c.bindAccessor_eq, Class.bindAccessor_eq, c.property_renumber]
  refine ((c.property name).bind_renumber c.path ρ (ρ c.line) role m).map ?_
  rintro p _ rfl
  refine ⟨⟨_, rfl⟩, ?_⟩
  unfold Class.renumber
  rw [Keyed.mapValues_put]

namespace Reader

variable {r : Reader} {ρ : Nat → Nat}

theorem alike_getterFor? (b : Bearer) (n : Int) (name : String) :
    Alike Eq (getterFor? b name) (getterFor? (b.atLine n) name) := by
  refine .bindSame (b.alike_string? n _) fun getter => ?_
  cases getter with
  | some p => exact .pure rfl
  | none => exact .bindSame (b.alike_bool? n _) fun _ => .pure rfl

theorem claimGetter_renumber (b : Bearer) (n : Int) (c : Class) (m : Method) :
    Alike (fun d d' => (∃ ps, d = { c with properties := ps }) ∧ d' = d.renumber ρ) (claimGetter b c m)
      (claimGetter (b.atLine n) (c.renumber ρ) (m.renumber c.path ρ)) := by
  refine .bindSame (alike_getterFor? b n m.name) fun getter => ?_
  cases getter with
  | some p => exact .lift (c.bindAccessor_renumber ρ .getter p m.link)
  | none => exact .pure ⟨⟨_, rfl⟩, rfl⟩

theorem claimSetter_renumber (b : Bearer) (n : Int) (c : Class) (m : Method) :
    Alike (fun d d' => (∃ ps, d = { c with properties := ps }) ∧ d' = d.renumber ρ) (claimSetter b c m)
      (claimSetter (b.atLine n) (c.renumber ρ) (m.renumber c.path ρ)) := by
  refine .bindSame (b.alike_string? n _) fun setter => ?_
  cases setter with
  | some p =>
      refine .ite (fun _ => .throw_bind _ _) fun _ => ?_
      exact .lift (c.bindAccessor_renumber ρ .setter p m.link)
  | none => exact .pure ⟨⟨_, rfl⟩, rfl⟩

/-- A method at another line claims its properties alike, and nothing else in the class changes. -/
theorem claimProperties_renumber (c : Class) (m : Method) :
    Alike (fun d d' => (∃ ps, d = { c with properties := ps }) ∧ d' = d.renumber ρ) (r.claimProperties c m)
      (r.claimProperties (c.renumber ρ) (m.renumber c.path ρ)) := by
  refine .bind (claimGetter_renumber (m.bearer .method c.path r.isEnum) (ρ m.line) c m) ?_
  rintro d _ ⟨⟨ps, rfl⟩, rfl⟩
  refine (claimSetter_renumber (m.bearer .method c.path r.isEnum) (ρ m.line) _ m).mono ?_
  rintro e _ ⟨⟨qs, rfl⟩, rfl⟩
  exact ⟨⟨qs, rfl⟩, rfl⟩

end Reader

end HeaderReflection
