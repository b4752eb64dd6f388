import HeaderReflection.Proofs.Checked
import HeaderReflection.Source.Progress

/-! # What a line can do

Reading a line is a function with many branches.  A line that is read does one of a few things, and these are
listed with everything that has to hold for them.

* `Reader.DeclareStep` lists what the declaration of a marker does: it begins a class, opens a body, adds a
  field or a method, or begins an enum.
* `Reader.EnumLineStep` lists what a line in the body of an enum does: it closes the enum, is idle, brings a
  list that waits, or declares an enumerator.
* `Reader.LineStep` puts them together with a plain line and with a marker that awaits its declaration.

Reading a line is taking one of these steps (`Reader.readLine_eq_ok`), in both directions.  So what a line
changes is proved by cases of the step, and that a line can be read is proved by giving one.  What every step
keeps is kept by all lines (`Reader.runLines_leads`). -/

namespace HeaderReflection

open Checked Text

/-! ### Steps -/

/-- The body of an enum with one more enumerator. -/
def EnumBody.put (body : EnumBody) (x : Enumerator) : EnumBody where
  declared := { body.declared with enumerators := body.declared.enumerators ++ [x] }
  next := x.value + 1

namespace Reader

/-- The text is empty or a comment. -/
def isIdle : List Char → Bool
  | [] | '/' :: '/' :: _ => true
  | _ => false

/-- The text of a documentation comment. -/
def commentText? : List Char → Option String
  | '/' :: '/' :: '/' :: s => some (String.ofList (trim s))
  | _ => none

/-- What the declaration of a marker does. -/
inductive DeclareStep (r : Reader) (p : Progress) (site : MarkerSite) (text : List Char) :
    MarkerKind → Progress → Prop where
  | classType {c : Class} (hclosed : ∀ d ∈ p.classes.head?, d.bodyLine ≠ 0) (hc : r.classOf site text = .ok c) :
      DeclareStep r p site text .classType
        { p with mode := .between, classes := c :: p.classes, access := initialAccess c }
  | body {c : Class} {cs : List Class} (hclasses : p.classes = c :: cs) (hbody : c.bodyLine = 0) :
      DeclareStep r p site text .body
        { p with mode := .between, classes := { c with bodyLine := site.line } :: cs, access := .everyone }
  | field {c : Class} {cs : List Class} {f : Field} (hclasses : p.classes = c :: cs) (hbody : c.bodyLine ≠ 0)
      (hf : r.fieldOf site c p.access text = .ok f) : DeclareStep r p site text .field
        { p with mode := .between, classes := { c with fields := c.fields ++ [f] } :: cs }
  | method {c d : Class} {cs : List Class} {m : Method} (hclasses : p.classes = c :: cs) (hbody : c.bodyLine ≠ 0)
      (hm : r.methodOf site c p.access text = .ok m) (hd : r.claimProperties c m = .ok d) :
      DeclareStep r p site text .method
        { p with mode := .between, classes := { d with methods := d.methods ++ [m] } :: cs }
  | opening {head : EnumHead} {rest : List Char} (hhead : EnumHead.read.split text = .ok (head, rest))
      (hopened : head.opened = false) : DeclareStep r p site text .enumType { p with mode := .opening head site }
  | enumType {head : EnumHead} {rest : List Char} {e : Enumeration}
      (hhead : EnumHead.read.split text = .ok (head, rest)) (hopened : head.opened = true)
      (hrest : trimComments rest = []) (he : r.enumOf site head = .ok e) : DeclareStep r p site text .enumType
        { p with mode := .enumerators { declared := e } }

/-- What a line in the body of an enum does. -/
inductive EnumLineStep (r : Reader) (p : Progress) (body : EnumBody) (n : Nat) (line : List Char) :
    Progress → Prop where
  | closes (hend : isEnumEnd line = true) :
      EnumLineStep r p body n line { p with enums := body.declared :: p.enums, mode := .between }
  | idle (hidle : isIdle line = true) : EnumLineStep r p body n line
      { p with mode := .enumerators { body with comments := body.comments ++ (commentText? line).toList } }
  /-- An attribute list that waits for an enumerator. -/
  | list {bag : Bag} {rest : List Char} (hline : ∀ s, line ≠ '\x7d' :: s) (hbusy : isIdle line = false)
      (hmarker : ((r.markerName .enumerator).toList ++ ['(']).isPrefixOf line = true)
      (hlist : Lexer.attributeList.split (line.drop (r.markerName .enumerator).toList.length) = .ok (bag, rest))
      (hidle : isIdle (trim rest) = true) :
      EnumLineStep r p body n line { p with mode := .enumerators { body with pending := bag } }
  /-- A marker with its enumerator. -/
  | marked {bag : Bag} {rest : List Char} {x : Enumerator} (hline : ∀ s, line ≠ '\x7d' :: s)
      (hbusy : isIdle line = false)
      (hmarker : ((r.markerName .enumerator).toList ++ ['(']).isPrefixOf line = true)
      (hlist : Lexer.attributeList.split (line.drop (r.markerName .enumerator).toList.length) = .ok (bag, rest))
      (hrest : isIdle (trim rest) = false)
      (hx : r.enumeratorOf { body with pending := bag } n (trim rest) = .ok x) :
      EnumLineStep r p body n line { p with mode := .enumerators (body.put x) }
  | plain {x : Enumerator} (hline : ∀ s, line ≠ '\x7d' :: s) (hbusy : isIdle line = false)
      (hmarker : ((r.markerName .enumerator).toList ++ ['(']).isPrefixOf line = false)
      (hx : r.enumeratorOf body n line = .ok x) :
      EnumLineStep r p body n line { p with mode := .enumerators (body.put x) }

/-- What a line does. -/
inductive LineStep (r : Reader) (p : Progress) (n : Nat) (line : List Char) : Progress → Prop where
  /-- A line without a marker: an access label, a comment, or anything else. -/
  | plain (hmode : p.mode = .between) (hmarker : r.markers.find? line = none)
      (hnone : ((r.markerName .enumerator).toList ++ ['(']).isPrefixOf line = false) :
      LineStep r p n line { p with
        access := (Access.ofLabelLine? (String.ofList line)).getD p.access
        comments := ((commentText? line).map (p.comments ++ [·])).getD [] }
  /-- A marker with nothing behind it. -/
  | marker {name : String} {kind : MarkerKind} {behind rest : List Char} {list : Bag} (hmode : p.mode = .between)
      (hmarker : r.markers.find? line = some (name, kind, behind))
      (hlist : Lexer.attributeList.split behind = .ok (list, rest))
      (hrest : name ≠ r.markerName .body ∧ declarationText rest = []) :
      LineStep r p n line { p with comments := [], mode := .declaration kind ⟨p.path, n, p.comments, list⟩ }
  /-- A marker with its declaration; a body marker has an empty one. -/
  | oneLine {name : String} {kind : MarkerKind} {behind rest : List Char} {list : Bag} {q : Progress}
      (hmode : p.mode = .between) (hmarker : r.markers.find? line = some (name, kind, behind))
      (hlist : Lexer.attributeList.split behind = .ok (list, rest))
      (hrest : ¬(name ≠ r.markerName .body ∧ declarationText rest = []))
      (hq : r.DeclareStep { p with comments := [] } ⟨p.path, n, p.comments, list⟩
        (if name = r.markerName .body then [] else declarationText rest) kind q) : LineStep r p n line q
  /-- The declaration of the marker on the line before. -/
  | declaration {kind : MarkerKind} {site : MarkerSite} {q : Progress} (hmode : p.mode = .declaration kind site)
      (hq : r.DeclareStep p site line kind q) : LineStep r p n line q
  /-- The opening brace of an enum. -/
  | brace {head : EnumHead} {site : MarkerSite} {rest : List Char} {e : Enumeration}
      (hmode : p.mode = .opening head site) (hbrace : (Lexer.expect ['\x7b']).split line = .ok ((), rest))
      (hrest : trimComments rest = []) (he : r.enumOf site head = .ok e) :
      LineStep r p n line { p with mode := .enumerators { declared := e } }
  | enumLine {body : EnumBody} {q : Progress} (hmode : p.mode = .enumerators body)
      (hq : r.EnumLineStep p body n line q) : LineStep r p n line q

variable {r : Reader} {p q : Progress} {n : Nat} {line : List Char}

/-! ### Lines -/

theorem isIdle_eq_false {s : List Char} (hempty : s = [] → False) (hcomment : ∀ t, s = '/' :: '/' :: t → False) :
    isIdle s = false := by
  unfold isIdle
  split
  · exact (hempty rfl).elim
  · exact (hcomment _ rfl).elim
  · rfl

theorem commentText?_eq_none (h : ∀ s, line = '/' :: '/' :: '/' :: s → False) : commentText? line = none := by
  unfold commentText?
  split
  · exact (h _ rfl).elim
  · rfl

theorem commentText?_of_label {a : Access} (h : Access.ofLabelLine? (String.ofList line) = some a) :
    commentText? line = none := by
  have hlabels : line = "public:".toList ∨ line = "protected:".toList ∨ line = "private:".toList := by
    unfold Access.ofLabelLine? at h
    split at h
    · rename_i hlabel
      exact .inl (String.toList_ofList.symm.trans (congrArg String.toList hlabel))
    · split at h
      · rename_i hlabel
        exact .inr (.inl (String.toList_ofList.symm.trans (congrArg String.toList hlabel)))
      · split at h
        · rename_i hlabel
          exact .inr (.inr (String.toList_ofList.symm.trans (congrArg String.toList hlabel)))
        · cases h
  rcases hlabels with rfl | rfl | rfl <;> rfl

theorem exists_brace_of_isEnumEnd (h : isEnumEnd line = true) : ∃ s, line = '\x7d' :: s := by
  unfold isEnumEnd at h
  split at h
  · exact ⟨_, rfl⟩
  · cases h

/-! ### The last class -/

theorem closeClass_eq_ok : r.closeClass p = .ok () ↔ ∀ c ∈ p.classes.head?, c.bodyLine ≠ 0 := by
  unfold closeClass
  cases p.classes with
  | nil => exact ⟨fun _ c hc => absurd hc (Option.not_mem_none c), fun _ => rfl⟩
  | cons c cs => by_cases hc : c.bodyLine = 0 <;> simp [hc]

theorem openClass_eq_ok {kind : MarkerKind} {c : Class} {cs : List Class} :
    r.openClass p kind = .ok (c, cs) ↔ p.classes = c :: cs ∧ c.bodyLine ≠ 0 := by
  unfold openClass
  cases p.classes with
  | nil => simp
  | cons d ds =>
      by_cases hd : d.bodyLine = 0
      · simp only [hd, if_true, reduceCtorEq, List.cons.injEq, false_iff]
        rintro ⟨⟨rfl, -⟩, hbody⟩
        exact hbody hd
      · simp only [hd, if_false, Except.ok.injEq, Prod.mk.injEq, List.cons.injEq]
        exact ⟨fun h => ⟨h, h.1 ▸ hd⟩, And.left⟩

theorem beginBody_eq_ok : r.beginBody p n = .ok q ↔
    ∃ c cs, p.classes = c :: cs ∧ c.bodyLine = 0 ∧
      q = { p with classes := { c with bodyLine := n } :: cs, access := .everyone } := by
  unfold beginBody
  cases p.classes with
  | nil => simp
  | cons c cs =>
      by_cases hc : c.bodyLine = 0
      · simp only [hc, ne_eq, not_true, if_false, Except.ok.injEq, List.cons.injEq]
        constructor
        · rintro rfl
          exact ⟨c, cs, ⟨rfl, rfl⟩, hc, rfl⟩
        · rintro ⟨_, _, ⟨rfl, rfl⟩, -, rfl⟩
          rfl
      · simp only [hc, ne_eq, not_false_eq_true, if_true, reduceCtorEq, List.cons.injEq, false_iff]
        rintro ⟨_, _, ⟨rfl, rfl⟩, hbody, -⟩
        exact hc hbody

/-! ### Declarations -/

theorem beginEnum_eq_ok {site : MarkerSite} {head : EnumHead} {rest : List Char} :
    r.beginEnum p site head rest = .ok q ↔
      trimComments rest = [] ∧ ∃ e, r.enumOf site head = .ok e ∧
        q = { p with mode := .enumerators { declared := e } } := by
  unfold beginEnum
  constructor
  · intro h
    split at h
    · rename_i hrest
      obtain ⟨e, he, h⟩ := bind_eq_ok.mp h
      exact ⟨List.isEmpty_iff.mp hrest, e, he, (pure_eq_ok.mp h).symm⟩
    · exact absurd h throw_ne_ok
  · rintro ⟨hrest, e, he, rfl⟩
    rw [if_pos (List.isEmpty_iff.mpr hrest)]
    exact bind_eq_ok.mpr ⟨e, he, rfl⟩

theorem declareStep_of_declare {kind : MarkerKind} {site : MarkerSite} {text : List Char}
    (h : r.declare p kind site text = .ok q) : r.DeclareStep p site text kind q := by
  cases kind with
  | classType =>
      obtain ⟨_, hclose, h⟩ := bind_eq_ok.mp h
      obtain ⟨c, hc, h⟩ := bind_eq_ok.mp h
      obtain rfl := pure_eq_ok.mp h
      exact .classType (closeClass_eq_ok.mp hclose) hc
  | body =>
      obtain ⟨c, cs, hclasses, hbody, rfl⟩ := beginBody_eq_ok.mp (lift_eq_ok.mp h)
      exact .body hclasses hbody
  | field =>
      obtain ⟨⟨c, cs⟩, hopen, h⟩ := bind_eq_ok.mp h
      obtain ⟨hclasses, hbody⟩ := openClass_eq_ok.mp (lift_eq_ok.mp hopen)
      obtain ⟨f, hf, h⟩ := bind_eq_ok.mp h
      obtain rfl := pure_eq_ok.mp h
      exact .field hclasses hbody hf
  | method =>
      obtain ⟨⟨c, cs⟩, hopen, h⟩ := bind_eq_ok.mp h
      obtain ⟨hclasses, hbody⟩ := openClass_eq_ok.mp (lift_eq_ok.mp hopen)
      obtain ⟨m, hm, h⟩ := bind_eq_ok.mp h
      obtain ⟨d, hd, h⟩ := bind_eq_ok.mp h
      obtain rfl := pure_eq_ok.mp h
      exact .method hclasses hbody hm hd
  | enumType =>
      obtain ⟨⟨head, rest⟩, hhead, h⟩ := bind_eq_ok.mp h
      have hhead := lift_eq_ok.mp hhead
      dsimp only at h
      split at h
      · rename_i hopened
        obtain ⟨hrest, e, he, rfl⟩ := beginEnum_eq_ok.mp h
        exact .enumType hhead hopened hrest he
      · rename_i hopened
        obtain rfl := pure_eq_ok.mp h
        exact .opening hhead (Bool.eq_false_iff.mpr hopened)
  | enumerator => exact absurd h throw_ne_ok

theorem DeclareStep.declare_eq {kind : MarkerKind} {site : MarkerSite} {text : List Char}
    (h : r.DeclareStep p site text kind q) : r.declare p kind site text = .ok q := by
  cases h with
  | classType hclosed hc =>
      exact bind_eq_ok.mpr ⟨(), closeClass_eq_ok.mpr hclosed, bind_eq_ok.mpr ⟨_, hc, rfl⟩⟩
  | body hclasses hbody => exact lift_eq_ok.mpr (beginBody_eq_ok.mpr ⟨_, _, hclasses, hbody, rfl⟩)
  | field hclasses hbody hf =>
      refine bind_eq_ok.mpr ⟨_, lift_eq_ok.mpr (openClass_eq_ok.mpr ⟨hclasses, hbody⟩), ?_⟩
      exact bind_eq_ok.mpr ⟨_, hf, rfl⟩
  | method hclasses hbody hm hd =>
      refine bind_eq_ok.mpr ⟨_, lift_eq_ok.mpr (openClass_eq_ok.mpr ⟨hclasses, hbody⟩), ?_⟩
      exact bind_eq_ok.mpr ⟨_, hm, bind_eq_ok.mpr ⟨_, hd, rfl⟩⟩
  | opening hhead hopened =>
      exact bind_eq_ok.mpr ⟨_, lift_eq_ok.mpr hhead, if_neg (Bool.eq_false_iff.mp hopened)⟩
  | enumType hhead hopened hrest he =>
      refine bind_eq_ok.mpr ⟨_, lift_eq_ok.mpr hhead, (if_pos hopened).trans ?_⟩
      exact beginEnum_eq_ok.mpr ⟨hrest, _, he, rfl⟩

/-- The declaration of a marker is read by one of the steps that it can take. -/
theorem declare_eq_ok {kind : MarkerKind} {site : MarkerSite} {text : List Char} :
    r.declare p kind site text = .ok q ↔ r.DeclareStep p site text kind q :=
  ⟨declareStep_of_declare, DeclareStep.declare_eq⟩

theorem markerLine_eq_bind {name : String} {kind : MarkerKind} {behind : List Char} :
    r.markerLine p n name kind behind = (do
      let (list, rest) ← Lexer.attributeList.split behind
      if name ≠ r.markerName .body ∧ declarationText rest = [] then
        return { p with comments := [], mode := .declaration kind ⟨p.path, n, p.comments, list⟩ }
      else
        r.declare { p with comments := [] } kind ⟨p.path, n, p.comments, list⟩
          (if name = r.markerName .body then [] else declarationText rest)) := by
  unfold markerLine
  refine bind_congr fun a => ?_
  dsimp only
  by_cases hname : name = r.markerName .body
  · rw [if_pos hname, if_neg (fun h => h.1 hname), if_pos hname]
  · rw [if_neg hname, if_neg hname]
    split
    · rename_i hnil
      rw [if_pos ⟨hname, hnil⟩]
    · rename_i hne
      rw [if_neg (fun h => hne h.2)]

/-- A line with a marker awaits its declaration or takes the step of the one behind the marker. -/
theorem markerLine_eq_ok {name : String} {kind : MarkerKind} {behind : List Char} :
    r.markerLine p n name kind behind = .ok q ↔ ∃ list rest, Lexer.attributeList.split behind = .ok (list, rest) ∧
      if name ≠ r.markerName .body ∧ declarationText rest = [] then
        q = { p with comments := [], mode := .declaration kind ⟨p.path, n, p.comments, list⟩ }
      else r.DeclareStep { p with comments := [] } ⟨p.path, n, p.comments, list⟩
        (if name = r.markerName .body then [] else declarationText rest) kind q := by
  rw [markerLine_eq_bind]
  constructor
  · intro h
    obtain ⟨⟨list, rest⟩, hlist, h⟩ := bind_eq_ok.mp h
    refine ⟨list, rest, lift_eq_ok.mp hlist, ?_⟩
    dsimp only at h
    split at h
    · rename_i hawaits
      rw [if_pos hawaits]
      exact (pure_eq_ok.mp h).symm
    · rename_i hinside
      rw [if_neg hinside]
      exact declare_eq_ok.mp h
  · rintro ⟨list, rest, hlist, h⟩
    refine bind_eq_ok.mpr ⟨(list, rest), lift_eq_ok.mpr hlist, ?_⟩
    dsimp only
    split at h
    · rename_i hawaits
      rw [if_pos hawaits, h]
      rfl
    · rename_i hinside
      rw [if_neg hinside]
      exact declare_eq_ok.mpr h

theorem plainLine_eq_ok : r.plainLine p line = .ok q ↔
    ((r.markerName .enumerator).toList ++ ['(']).isPrefixOf line = false ∧
      q = { p with
        access := (Access.ofLabelLine? (String.ofList line)).getD p.access
        comments := ((commentText? line).map (p.comments ++ [·])).getD [] } := by
  unfold plainLine
  cases hnone : ((r.markerName .enumerator).toList ++ ['(']).isPrefixOf line with
  | true => simp
  | false =>
      simp only [Bool.false_eq_true, if_false, true_and]
      split
      · rename_i hlabel
        rw [hlabel, commentText?_of_label hlabel]
        exact pure_eq_ok.trans eq_comm
      · rename_i hlabel
        rw [hlabel]
        exact pure_eq_ok.trans eq_comm
      · rename_i hcomment hlabel
        rw [hlabel, commentText?_eq_none hcomment]
        exact pure_eq_ok.trans eq_comm

/-! ### Bodies of enums -/

theorem enumeratorLine_eq_ok {body : EnumBody} {text : List Char} : r.enumeratorLine p body n text = .ok q ↔
    ∃ x, r.enumeratorOf body n text = .ok x ∧ q = { p with mode := .enumerators (body.put x) } := by
  constructor
  · intro h
    obtain ⟨next, hnext, h⟩ := bind_eq_ok.mp h
    obtain ⟨x, hx, hnext⟩ := bind_eq_ok.mp hnext
    obtain rfl := pure_eq_ok.mp hnext
    exact ⟨x, hx, (pure_eq_ok.mp h).symm⟩
  · rintro ⟨x, hx, rfl⟩
    exact bind_eq_ok.mpr ⟨_, bind_eq_ok.mpr ⟨x, hx, rfl⟩, rfl⟩

theorem enumLine_of_brace {body : EnumBody} {s : List Char} :
    r.enumLine p body n ('\x7d' :: s) =
      if isEnumEnd ('\x7d' :: s) then return { p with enums := body.declared :: p.enums, mode := .between }
      else throw (Cause.enumEnd body.declared.name (String.ofList ('\x7d' :: s)) : Fault) :=
  rfl

/-- A line that is neither a brace nor idle declares an enumerator, on its own or behind a marker. -/
theorem enumLine_of_busy {body : EnumBody} (hline : ∀ s, line ≠ '\x7d' :: s) (hbusy : isIdle line = false) :
    r.enumLine p body n line =
      if ((r.markerName .enumerator).toList ++ ['(']).isPrefixOf line then do
        let (pending, rest) ← Lexer.attributeList.split (line.drop (r.markerName .enumerator).toList.length)
        if isIdle (trim rest) then return { p with mode := .enumerators { body with pending } }
        else r.enumeratorLine p { body with pending } n (trim rest)
      else r.enumeratorLine p body n line := by
  unfold enumLine
  split
  · exact absurd rfl (hline _)
  · cases hbusy
  · cases hbusy
  · cases hbusy
  · refine ite_congr rfl (fun _ => bind_congr fun a => ?_) fun _ => rfl
    dsimp only
    split
    · rename_i hrest
      rw [hrest]
      rfl
    · rename_i hrest
      rw [hrest]
      rfl
    · rename_i hempty hcomment
      rw [isIdle_eq_false hempty hcomment]
      rfl

theorem enumLine_of_idle {body : EnumBody} (hmode : p.mode = .enumerators body) (hidle : isIdle line = true) :
    r.enumLine p body n line = .ok
      { p with mode := .enumerators { body with comments := body.comments ++ (commentText? line).toList } } := by
  have hsame : commentText? line = none →
      { p with mode := .enumerators { body with comments := body.comments ++ (commentText? line).toList } } = p := by
    intro hnone
    rw [hnone, Option.toList_none, List.append_nil, ← hmode]
  unfold enumLine
  split
  · cases hidle
  · exact congrArg _ (hsame rfl).symm
  · rfl
  · rename_i hdoc
    exact congrArg _ (hsame (commentText?_eq_none fun s hs => hdoc s (List.cons.inj (List.cons.inj hs).2).2)).symm
  · rename_i hempty _ hcomment
    rw [isIdle_eq_false hempty hcomment] at hidle
    cases hidle

theorem enumLineStep_of_enumLine {body : EnumBody} (hmode : p.mode = .enumerators body)
    (h : r.enumLine p body n line = .ok q) : r.EnumLineStep p body n line q := by
  cases hidle : isIdle line with
  | true =>
      obtain rfl := Except.ok.inj ((enumLine_of_idle hmode hidle).symm.trans h)
      exact .idle hidle
  | false =>
      by_cases hbrace : ∃ s, line = '\x7d' :: s
      · obtain ⟨s, rfl⟩ := hbrace
        rw [enumLine_of_brace] at h
        split at h
        · rename_i hend
          obtain rfl := pure_eq_ok.mp h
          exact .closes hend
        · exact absurd h throw_ne_ok
      · have hline : ∀ s, line ≠ '\x7d' :: s := fun s hs => hbrace ⟨s, hs⟩
        rw [enumLine_of_busy hline hidle] at h
        split at h
        · rename_i hmarker
          obtain ⟨⟨bag, rest⟩, hlist, h⟩ := bind_eq_ok.mp h
          have hlist := lift_eq_ok.mp hlist
          dsimp only at h
          split at h
          · rename_i hrest
            obtain rfl := pure_eq_ok.mp h
            exact .list hline hidle hmarker hlist hrest
          · rename_i hrest
            obtain ⟨x, hx, rfl⟩ := enumeratorLine_eq_ok.mp h
            exact .marked hline hidle hmarker hlist (Bool.eq_false_iff.mpr hrest) hx
        · rename_i hmarker
          obtain ⟨x, hx, rfl⟩ := enumeratorLine_eq_ok.mp h
          exact .plain hline hidle (Bool.eq_false_iff.mpr hmarker) hx

theorem EnumLineStep.enumLine_eq {body : EnumBody} (h : r.EnumLineStep p body n line q)
    (hmode : p.mode = .enumerators body) : r.enumLine p body n line = .ok q := by
  cases h with
  | closes hend =>
      obtain ⟨s, rfl⟩ := exists_brace_of_isEnumEnd hend
      rw [enumLine_of_brace]
      exact if_pos hend
  | idle hidle => exact enumLine_of_idle hmode hidle
  | list hline hbusy hmarker hlist hidle =>
      rw [enumLine_of_busy hline hbusy, if_pos hmarker]
      exact bind_eq_ok.mpr ⟨_, lift_eq_ok.mpr hlist, if_pos hidle⟩
  | marked hline hbusy hmarker hlist hrest hx =>
      rw [enumLine_of_busy hline hbusy, if_pos hmarker]
      refine bind_eq_ok.mpr ⟨_, lift_eq_ok.mpr hlist, (if_neg (Bool.eq_false_iff.mp hrest)).trans ?_⟩
      exact enumeratorLine_eq_ok.mpr ⟨_, hx, rfl⟩
  | plain hline hbusy hmarker hx =>
      rw [enumLine_of_busy hline hbusy, if_neg (Bool.eq_false_iff.mp hmarker)]
      exact enumeratorLine_eq_ok.mpr ⟨_, hx, rfl⟩

/-! ### Any line -/

theorem readLine_of_marker {name : String} {kind : MarkerKind} {behind : List Char} (hmode : p.mode = .between)
    (hmarker : r.markers.find? line = some (name, kind, behind)) :
    r.readLine p n line = r.markerLine p n name kind behind := by
  unfold readLine
  simp only [hmode, hmarker]

theorem readLine_of_enumerators {body : EnumBody} (hmode : p.mode = .enumerators body) :
    r.readLine p n line = r.enumLine p body n line := by
  unfold readLine
  simp only [hmode]

theorem lineStep_of_readLine (h : r.readLine p n line = .ok q) : r.LineStep p n line q := by
  unfold readLine at h
  cases hmode : p.mode with
  | between =>
      simp only [hmode] at h
      split at h
      · rename_i name kind behind hmarker
        obtain ⟨list, rest, hlist, h⟩ := markerLine_eq_ok.mp h
        split at h
        · rename_i hrest
          subst h
          exact .marker hmode hmarker hlist hrest
        · rename_i hrest
          exact .oneLine hmode hmarker hlist hrest h
      · rename_i hmarker
        obtain ⟨hnone, rfl⟩ := plainLine_eq_ok.mp (lift_eq_ok.mp h)
        exact .plain hmode hmarker hnone
  | declaration kind site =>
      simp only [hmode] at h
      exact .declaration hmode (declare_eq_ok.mp h)
  | opening head site =>
      simp only [hmode] at h
      obtain ⟨⟨_, rest⟩, hbrace, h⟩ := bind_eq_ok.mp h
      obtain ⟨hrest, e, he, rfl⟩ := beginEnum_eq_ok.mp h
      exact .brace hmode (lift_eq_ok.mp hbrace) hrest he
  | enumerators body =>
      simp only [hmode] at h
      exact .enumLine hmode (enumLineStep_of_enumLine hmode h)

theorem LineStep.readLine_eq (h : r.LineStep p n line q) : r.readLine p n line = .ok q := by
  cases h with
  | plain hmode hmarker hnone =>
      have hread : r.readLine p n line = liftM (r.plainLine p line) := by
        unfold readLine
        simp only [hmode, hmarker]
      exact hread.trans (lift_eq_ok.mpr (plainLine_eq_ok.mpr ⟨hnone, rfl⟩))
  | marker hmode hmarker hlist hrest =>
      rw [readLine_of_marker hmode hmarker]
      exact markerLine_eq_ok.mpr ⟨_, _, hlist, by rw [if_pos hrest]⟩
  | oneLine hmode hmarker hlist hrest hq =>
      rw [readLine_of_marker hmode hmarker]
      exact markerLine_eq_ok.mpr ⟨_, _, hlist, by rwa [if_neg hrest]⟩
  | declaration hmode hq =>
      unfold readLine
      rw [hmode]
      exact hq.declare_eq
  | brace hmode hbrace hrest he =>
      unfold readLine
      rw [hmode]
      exact bind_eq_ok.mpr ⟨_, lift_eq_ok.mpr hbrace, beginEnum_eq_ok.mpr ⟨hrest, _, he, rfl⟩⟩
  | enumLine hmode hq => exact (readLine_of_enumerators hmode).trans (hq.enumLine_eq hmode)

/-- A line is read by one of the steps that it can take. -/
theorem readLine_eq_ok : r.readLine p n line = .ok q ↔ r.LineStep p n line q :=
  ⟨lineStep_of_readLine, LineStep.readLine_eq⟩

/-- What every step keeps is kept by all lines. -/
theorem runLines_leads {R : Progress → Progress → Prop}
    (hstep : ∀ {p q p' n line}, R p q → r.LineStep p n line p' → ∃ q', r.LineStep q n line q' ∧ R p' q')
    (h : R p q) (n : Nat) (ls : List String) : Leads R (r.runLines p n ls) (r.runLines q n ls) := by
  induction ls generalizing p q n with
  | nil => exact .pure h
  | cons l ls ih =>
      have hline : Leads R (r.readLine p n (trim l.toList)) (r.readLine q n (trim l.toList)) := by
        intro p' hp'
        obtain ⟨q', hq', hnext⟩ := hstep h (readLine_eq_ok.mp hp')
        exact ⟨q', hq'.readLine_eq, hnext⟩
      exact .bind (hline.placedAt _ _ _ _) fun _ _ hnext => ih hnext _

/-! ### Whole texts -/

variable {path : SourcePath} {text : String} {h : Header}

theorem finish_eq_ok : r.finish p = .ok h ↔ p.mode = .between ∧ (∀ c ∈ p.classes.head?, c.bodyLine ≠ 0) ∧
    h = ⟨p.path, p.classes.reverse, p.enums.reverse⟩ := by
  unfold finish
  cases p.mode with
  | between =>
      constructor
      · intro hf
        obtain ⟨_, hclose, hf⟩ := bind_eq_ok.mp hf
        exact ⟨rfl, closeClass_eq_ok.mp hclose, (pure_eq_ok.mp hf).symm⟩
      · rintro ⟨-, hclosed, rfl⟩
        exact bind_eq_ok.mpr ⟨(), closeClass_eq_ok.mpr hclosed, rfl⟩
  | declaration => exact ⟨nofun, nofun⟩
  | opening => exact ⟨nofun, nofun⟩
  | enumerators => exact ⟨nofun, nofun⟩

/-- A header is what its lines have been read to. -/
theorem read_eq_ok : r.read path text = .ok h ↔ r.checkDefaults = .ok () ∧
    ∃ p, r.runLines { path } 1 (Text.lines text) = .ok p ∧ r.finish p = .ok h := by
  unfold read
  constructor
  · intro hr
    obtain ⟨_, hdefaults, hr⟩ := bind_eq_ok.mp hr
    obtain ⟨p, hp, hr⟩ := bind_eq_ok.mp hr
    exact ⟨lift_eq_ok.mp (placedAt_eq_ok.mp hdefaults), p, hp, placedAt_eq_ok.mp hr⟩
  · rintro ⟨hdefaults, p, hp, hr⟩
    refine bind_eq_ok.mpr ⟨(), placedAt_eq_ok.mpr (lift_eq_ok.mpr hdefaults), ?_⟩
    exact bind_eq_ok.mpr ⟨p, hp, placedAt_eq_ok.mpr hr⟩

end Reader

end HeaderReflection
