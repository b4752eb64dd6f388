import HeaderReflection.Proofs.Attribute.EnumNames
import HeaderReflection.Source.Progress

/-! # Reading a header and the names of enums

What a header declares does not depend on the enums of the headers read before it (`Reader.read_knowing`).

A reader knows which names are those of enums, since attributes may name one.  But while a header is read such
attributes are put off, and no reading of another attribute asks for the names.  So a reader that knows other
enums makes the same of a site, of a declaration, of a line, and of all lines; the lemmas follow the functions
of the reader from the inside to the outside, and each of them only rewrites with those before it. -/

namespace HeaderReflection

/-! ### Choices of a bearer -/

namespace Reader

theorem classFlags_knowing (b : Bearer) (isEnum : String → Bool) (isStruct : Bool) :
    classFlags (b.knowing isEnum) isStruct = classFlags b isStruct := by
  unfold classFlags
  simp (disch := decide) only [Bearer.bool_knowing]

theorem getterFor?_knowing (b : Bearer) (isEnum : String → Bool) (name : String) :
    getterFor? (b.knowing isEnum) name = getterFor? b name := by
  unfold getterFor?
  simp (disch := decide) only [Bearer.string?_knowing, Bearer.bool?_knowing]

end Reader

theorem FieldChoices.ofBearer_knowing (b : Bearer) (isEnum : String → Bool) :
    FieldChoices.ofBearer (b.knowing isEnum) = FieldChoices.ofBearer b := by
  unfold FieldChoices.ofBearer
  simp (disch := decide) only [Bearer.bool?_knowing]

namespace Reader

/-- The reader when other names are known as those of reflected enums. -/
def knowing (r : Reader) (isEnum : String → Bool) : Reader := { r with isEnum }

variable (r : Reader) (isEnum : String → Bool)

/-! ### Declarations -/

theorem checkedBearer_knowing (site : MarkerSite) (k : DeclarationKind) (bag : Bag) :
    (r.knowing isEnum).checkedBearer site k bag =
      (Bearer.knowing · isEnum) <$> r.checkedBearer site k bag := by
  unfold checkedBearer
  simp only [map_bind, map_pure]
  exact congrArg (· >>= _) (Bearer.validate_knowing ⟨k, bag, some site.path, site.line, r.isEnum⟩ isEnum)

theorem classOf_knowing (site : MarkerSite) (text : List Char) :
    (r.knowing isEnum).classOf site text = r.classOf site text := by
  unfold classOf
  simp (disch := decide) only [checkedBearer_knowing, bind_map_left, classFlags_knowing,
    Bearer.string?_knowing, Bearer.object_knowing]
  rfl

theorem fieldOf_knowing (site : MarkerSite) (owner : Class) (access : Access) (text : List Char) :
    (r.knowing isEnum).fieldOf site owner access text = r.fieldOf site owner access text := by
  have howner : owner.bearer .classType owner.path (r.knowing isEnum).isEnum =
      (owner.bearer .classType owner.path r.isEnum).knowing isEnum := rfl
  unfold fieldOf
  simp (disch := decide) only [checkedBearer_knowing, bind_map_left, howner,
    FieldChoices.ofBearer_knowing, Bearer.string?_knowing, Bearer.bool_knowing]
  rfl

theorem methodOf_knowing (site : MarkerSite) (owner : Class) (access : Access) (text : List Char) :
    (r.knowing isEnum).methodOf site owner access text = r.methodOf site owner access text := by
  unfold methodOf
  simp (disch := decide) only [checkedBearer_knowing, bind_map_left, Bearer.string?_knowing,
    Bearer.bool_knowing, Bearer.mark_knowing, Bearer.bool?_knowing]
  rfl

theorem claimGetter_knowing (b : Bearer) (c : Class) (m : Method) :
    claimGetter (b.knowing isEnum) c m = claimGetter b c m := by
  unfold claimGetter
  rw [getterFor?_knowing]

theorem claimSetter_knowing (b : Bearer) (c : Class) (m : Method) :
    claimSetter (b.knowing isEnum) c m = claimSetter b c m := by
  unfold claimSetter
  simp (disch := decide) only [Bearer.string?_knowing]

theorem claimProperties_knowing (c : Class) (m : Method) :
    (r.knowing isEnum).claimProperties c m = r.claimProperties c m := by
  have hmethod : m.bearer .method c.path (r.knowing isEnum).isEnum =
      (m.bearer .method c.path r.isEnum).knowing isEnum := rfl
  unfold claimProperties
  simp only [hmethod, claimGetter_knowing, claimSetter_knowing]

theorem enumOf_knowing (site : MarkerSite) (head : EnumHead) :
    (r.knowing isEnum).enumOf site head = r.enumOf site head := by
  unfold enumOf
  simp (disch := decide) only [checkedBearer_knowing, bind_map_left, Bearer.string?_knowing,
    Bearer.bool_knowing, Bearer.object_knowing]
  rfl

theorem enumeratorOf_knowing (body : EnumBody) (line : Nat) (text : List Char) :
    (r.knowing isEnum).enumeratorOf body line text = r.enumeratorOf body line text := by
  unfold enumeratorOf
  simp (disch := decide) only [checkedBearer_knowing, bind_map_left, Bearer.string?_knowing]
  rfl

/-! ### Lines -/

theorem beginEnum_knowing (p : Progress) (site : MarkerSite) (head : EnumHead) (rest : List Char) :
    (r.knowing isEnum).beginEnum p site head rest = r.beginEnum p site head rest := by
  unfold beginEnum
  simp only [enumOf_knowing]

theorem declare_knowing (p : Progress) (kind : MarkerKind) (site : MarkerSite) (text : List Char) :
    (r.knowing isEnum).declare p kind site text = r.declare p kind site text := by
  cases kind with
  | classType =>
      simp only [declare, classOf_knowing]
      rfl
  | body => rfl
  | field =>
      simp only [declare, fieldOf_knowing]
      rfl
  | method =>
      simp only [declare, methodOf_knowing, claimProperties_knowing]
      rfl
  | enumType => simp only [declare, beginEnum_knowing]
  | enumerator => rfl

theorem markerLine_knowing (p : Progress) (n : Nat) (name : String) (kind : MarkerKind)
    (behind : List Char) :
    (r.knowing isEnum).markerLine p n name kind behind = r.markerLine p n name kind behind := by
  unfold markerLine
  simp only [declare_knowing]
  rfl

theorem enumeratorLine_knowing (p : Progress) (body : EnumBody) (n : Nat) (line : List Char) :
    (r.knowing isEnum).enumeratorLine p body n line = r.enumeratorLine p body n line := by
  unfold enumeratorLine addEnumerator
  simp only [enumeratorOf_knowing]

theorem enumLine_knowing (p : Progress) (body : EnumBody) (n : Nat) (line : List Char) :
    (r.knowing isEnum).enumLine p body n line = r.enumLine p body n line := by
  unfold enumLine
  simp only [enumeratorLine_knowing]
  rfl

theorem readLine_knowing (p : Progress) (n : Nat) (line : List Char) :
    (r.knowing isEnum).readLine p n line = r.readLine p n line := by
  unfold readLine
  simp only [markerLine_knowing, declare_knowing, beginEnum_knowing, enumLine_knowing]
  rfl

/-! ### Whole headers -/

theorem runLines_knowing (p : Progress) (n : Nat) (ls : List String) :
    (r.knowing isEnum).runLines p n ls = r.runLines p n ls := by
  induction ls generalizing p n with
  | nil => rfl
  | cons l ls ih => simp only [runLines, readLine_knowing, ih]

theorem read_knowing (path : SourcePath) (text : String) :
    (r.knowing isEnum).read path text = r.read path text := by
  unfold read
  simp only [runLines_knowing]
  rfl

end Reader

end HeaderReflection
