import HeaderReflection.Declaration.Type

/-! # Names of methods

A method is found under its name and under its script name.

* A script name must lead to one method only, whether the other one has it as a name or as a script name
  (`Class.sharedNameFault?`).
* Of methods that calls cannot tell apart by name, none may have default arguments (`Class.overloadFault?`).
  Calls find a method by its script name, if it has one.

The names are indexed once, when the methods that were made have joined the class.  Indexing adds a note on
the script name to each method that has one (`Class.indexMethods`), and changes nothing else of it. -/

namespace HeaderReflection

/-! ### Names of a method -/

namespace Method

/-- The script name, unless it is empty. -/
def givenName? (m : Method) : Option String := m.scriptedName.filter (!·.isEmpty)

/-- The script name, if it is another one than the name. -/
def otherName? (m : Method) : Option String := m.givenName?.filter (· != m.name)

/-- The names under which a method is found. -/
def names (m : Method) : List String := m.name :: m.otherName?.toList

/-- The method with a note on its script name, if that is another one than the name. -/
def noteOtherName (m : Method) : Method :=
  match m.otherName? with
  | none => m
  | some n =>
    { m with
      toDeclaration := m.note ⟨"Unique Name",
        "This method's unique name will be `" ++ n ++ "` in scripts.", false, ""⟩ }

/-- Nothing but the notes changes. -/
theorem exists_noteOtherName (m : Method) : ∃ ns, m.noteOtherName = { m with docNotes := ns } := by
  unfold noteOtherName
  split
  · exact ⟨m.docNotes, rfl⟩
  · exact ⟨_, rfl⟩

/-- A method without a script name gets no note on it. -/
theorem noteOtherName_of_none {m : Method} (h : m.scriptedName = none) : m.noteOtherName = m := by
  unfold noteOtherName otherName? givenName?
  rw [h]
  rfl

@[simp] theorem name_noteOtherName (m : Method) : m.noteOtherName.name = m.name := by
  obtain ⟨ns, h⟩ := m.exists_noteOtherName
  rw [h]

@[simp] theorem synthesized_noteOtherName (m : Method) :
    m.noteOtherName.synthesized = m.synthesized := by
  obtain ⟨ns, h⟩ := m.exists_noteOtherName
  rw [h]

@[simp] theorem givenName?_noteOtherName (m : Method) : m.noteOtherName.givenName? = m.givenName? := by
  obtain ⟨ns, h⟩ := m.exists_noteOtherName
  rw [h]
  rfl

@[simp] theorem dispatchName_noteOtherName (m : Method) :
    m.noteOtherName.dispatchName = m.dispatchName := by
  obtain ⟨ns, h⟩ := m.exists_noteOtherName
  rw [h]
  rfl

@[simp] theorem hasDefaults_noteOtherName (m : Method) :
    m.noteOtherName.hasDefaults = m.hasDefaults := by
  obtain ⟨ns, h⟩ := m.exists_noteOtherName
  rw [h]
  rfl

end Method

/-! ### The index -/

/-- The positions of the methods with a name, in the order of the names' first appearance. -/
def methodIndex (ms : List Method) : Keyed (List Nat) :=
  (ms.zipIdx.flatMap fun p => p.1.names.map fun n => (n, p.2)).foldl
    (fun t p => t.put p.1 ((t.get? p.1).getD [] ++ [p.2])) []

namespace Class

/-- The class with its methods indexed by name, and with a note on each script name. -/
def indexMethods (c : Class) : Class :=
  { c with
    methodsByName := methodIndex c.methods
    methods := c.methods.map Method.noteOtherName }

/-! ### Faults -/

/-- The note on a method that has the same name as another. -/
def conflictNote (c : Class) (m : Method) : String :=
  c.path.text ++ "(" ++ toString m.actualLine ++ ",1):   conflicts with this declaration"

/-- The fault of the first method whose script name leads to other methods too, by the index. -/
def sharedNameFault? (c : Class) : Option Fault :=
  c.methods.zipIdx.findSome? fun p =>
    match p.1.givenName? with
    | none => none
    | some n =>
      let group := (c.methodsByName.get? n).getD []
      if group.length ≤ 1 then none
      else
        some ⟨.uniqueNameTaken, some c.path, p.1.line, 1,
          ((group.filter (· != p.2)).filterMap (c.methods[·]?)).map c.conflictNote⟩

/-- The methods that a call by name can mean. -/
def overloads (c : Class) (name : String) : List Method :=
  c.methods.filter (·.dispatchName == name)

/-- The fault of the first name with several methods, one of which has default arguments. -/
def overloadFault? (c : Class) : Option Fault :=
  (c.methods.map (·.dispatchName)).findSome? fun n =>
    let group := c.overloads n
    if group.length < 2 then none
    else
      (group.find? (·.hasDefaults)).map fun m =>
        ⟨.overloadWithDefaults n, some c.path, m.actualLine, 1, []⟩

/-- What is wrong with the names of the methods. -/
def nameFault? (c : Class) : Option Fault := c.sharedNameFault? <|> c.overloadFault?

end Class

end HeaderReflection
