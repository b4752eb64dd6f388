import HeaderReflection.Proofs.Lexer.Takes
import HeaderReflection.Proofs.Source.LineSteps

/-! # What a line changes

A line of a header leaves what has been read as it is, adds a class or an enum, or changes the last of them.
A change is due to a marker and to the text that is declared behind it, or to an enumerator
(`DeclarationStep`).

* What stands at a line is said of the lines alone: a marker with its list, the text that it declares, the
  line of that text and of the brace behind it, and the list that waits for an enumerator.
* Each line that is read makes at most one change (`Reader.readLine_readsTo`), at the line of the marker or
  enumerator that it belongs to.  No two changes are made at one line, so a header is reached by changes at
  lines that increase (`Reader.exists_reached_of_read`).
* The mode of the reader says what is awaited, and from which line (`Reader.Progress.ModeAt`).

A property of classes that every such change keeps is an invariant, and it holds of each class of the header
(`Reader.ClassInvariant`, `Reader.read_classes`); likewise for enums (`Reader.EnumInvariant`,
`Reader.read_enums`).  This is how most statements on headers are proved. -/

namespace HeaderReflection

open Checked Text

/-! ### Places in a text -/

/-- A line of a text without the blanks around it; the first line has the number one. -/
def lineAt? (lines : List String) (n : Nat) : Option (List Char) :=
  if n = 0 then none else (lines[n - 1]?).map fun l => trim l.toList

theorem lineAt?_append (before ls : List String) (l : String) :
    lineAt? (before ++ l :: ls) (before.length + 1) = some (trim l.toList) := by
  simp [lineAt?]

namespace Reader

/-- The text that the marker at a line declares: what follows it, or else the line below. -/
def declarationAt? (r : Reader) (lines : List String) (n : Nat) : Option (List Char) :=
  match (lineAt? lines n).bind r.markers.find? with
  | none => none
  | some (name, _, behind) =>
    match Lexer.attributeList.split behind with
    | .error _ => none
    | .ok (_, rest) =>
      if name = r.markerName .body then some []
      else
        match declarationText rest with
        | [] => lineAt? lines (n + 1)
        | text => some text

/-- The text of the enumerator at a line, behind its marker if it has one there. -/
def enumeratorAt? (r : Reader) (lines : List String) (n : Nat) : Option (List Char) :=
  (lineAt? lines n).bind fun line =>
    let marker := (r.markerName .enumerator).toList
    if (marker ++ ['(']).isPrefixOf line then
      match Lexer.attributeList.split (line.drop marker.length) with
      | .error _ => none
      | .ok (_, rest) => some (trim rest)
    else some line

/-- The marker at a line: its name, its attribute list, and the text behind that. -/
def markerAt? (r : Reader) (lines : List String) (n : Nat) : Option (String × Bag × List Char) :=
  ((lineAt? lines n).bind r.markers.find?).bind fun m =>
    (Lexer.attributeList.split m.2.2).toOption.map fun p => (m.1, p)

/-- The attribute list of the marker at a line. -/
def listAt? (r : Reader) (lines : List String) (n : Nat) : Option Bag := (r.markerAt? lines n).map (·.2.1)

/-- The line on which the declaration of the marker at a line stands. -/
def textLine (r : Reader) (lines : List String) (n : Nat) : Nat :=
  match r.markerAt? lines n with
  | some (name, _, rest) => if name ≠ r.markerName .body ∧ declarationText rest = [] then n + 1 else n
  | none => n

/-- The line of the opening brace of the enum whose marker stands at a line. -/
def braceLine (r : Reader) (lines : List String) (n : Nat) : Nat :=
  match (r.declarationAt? lines n).map EnumHead.read.eval with
  | some (.ok head) => if head.opened then r.textLine lines n else r.textLine lines n + 1
  | _ => r.textLine lines n

/-- The attribute list of the enumerator marker at a line, and the text behind it. -/
def enumeratorMarkerAt? (r : Reader) (lines : List String) (n : Nat) : Option (Bag × List Char) :=
  (lineAt? lines n).bind fun line =>
    let marker := (r.markerName .enumerator).toList
    if (marker ++ ['(']).isPrefixOf line then
      (Lexer.attributeList.split (line.drop marker.length)).toOption.map fun p => (p.1, trim p.2)
    else none

/-- The attribute list that waits for an enumerator behind line `n` of an enum with its brace at line `brace`: that of
a marker with nothing but empty lines and comments below it. -/
def waitingList (r : Reader) (lines : List String) (brace : Nat) : Nat → Bag
  | 0 => []
  | n + 1 =>
    if n + 1 ≤ brace then []
    else if (lineAt? lines (n + 1)).any isIdle then waitingList r lines brace n
    else
      match r.enumeratorMarkerAt? lines (n + 1) with
      | some (bag, rest) => if isIdle rest then bag else []
      | none => []

/-- The attribute list of the enumerator at line `n`: that of the marker in front of it or, if there is none, the one
that waits for it. -/
def enumeratorList (r : Reader) (lines : List String) (brace n : Nat) : Bag :=
  match r.enumeratorMarkerAt? lines n with
  | some (bag, _) => bag
  | none => r.waitingList lines brace (n - 1)

end Reader

/-- The bag is that of an attribute list. -/
def IsListBag (bag : Bag) : Prop := ∃ s, Lexer.attributeList.eval s = .ok bag

/-- Empty parentheses are the list without attributes. -/
theorem Lexer.answer_attributeList_empty (r : List Char) : attributeList.answer ('(' :: ')' :: r) = (.ok [], r) := by
  have hinside : (balanced .round).answer ('(' :: ')' :: r) = (.ok [], r) := rfl
  have hmembers : Attribute.readObject [] = .ok [] := by
    unfold Attribute.readObject Attribute.readMembers
    rfl
  refine bind_answer_eq_ok.mpr ⟨_, _, hinside, ?_⟩
  rw [hmembers]
  rfl

theorem IsListBag.nil : IsListBag [] :=
  ⟨"()".toList, congrArg Prod.fst (Lexer.answer_attributeList_empty [])⟩

theorem Lexer.eval_eq_ok_of_split {α : Type} {m : Lexer α} {s r : List Char} {a : α}
    (h : m.split s = .ok (a, r)) : m.eval s = .ok a := by
  unfold Lexer.split at h
  unfold Lexer.eval
  split at h
  · rename_i b t hb
    obtain ⟨rfl, rfl⟩ := Prod.mk.inj (Except.ok.inj h)
    rw [hb]
  · cases h

theorem IsListBag.of_split {s rest : List Char} {bag : Bag}
    (h : Lexer.attributeList.split s = .ok (bag, rest)) : IsListBag bag :=
  ⟨s, Lexer.eval_eq_ok_of_split h⟩

/-- The site is that of a marker in the text, and `text` is what the marker declares. -/
structure MarkerSite.Declares (site : MarkerSite) (r : Reader) (path : SourcePath) (lines : List String)
    (text : List Char) : Prop where
  path : site.path = path
  attributes : IsListBag site.attributes
  text : r.declarationAt? lines site.line = some text
  list : r.listAt? lines site.line = some site.attributes

/-- The body of an enum holds the attribute list of the enumerator at a line. -/
structure EnumBody.ListsAt (body : EnumBody) (r : Reader) (lines : List String) (n : Nat) : Prop where
  isList : IsListBag body.pending
  list : body.pending = r.enumeratorList lines (r.braceLine lines body.declared.line) n

/-- The body of an enum holds the attribute list that waits for an enumerator in front of a line. -/
structure EnumBody.WaitsAt (body : EnumBody) (r : Reader) (lines : List String) (n : Nat) : Prop where
  isList : IsListBag body.pending
  brace : r.braceLine lines body.declared.line < n
  list : body.pending = r.waitingList lines (r.braceLine lines body.declared.line) (n - 1)

/-! ### Steps -/

/-- The classes and enums that have been read, the last ones first. -/
structure Declarations where
  classes : List Class := []
  enums : List Enumeration := []

/-- The declarations of a header, the last ones first. -/
def Header.declarations (h : Header) : Declarations := ⟨h.classes.reverse, h.enums.reverse⟩

/-- A change of what has been read, due to what stands at a line of a text. -/
inductive DeclarationStep (r : Reader) (path : SourcePath) (lines : List String) :
    Nat → Declarations → Declarations → Prop where
  | classType {site : MarkerSite} {text : List Char} {c : Class} (cs : List Class)
      (es : List Enumeration) (hsite : site.Declares r path lines text)
      (hc : r.classOf site text = .ok c) (hclosed : ∀ d ∈ cs.head?, d.bodyLine ≠ 0) :
      DeclarationStep r path lines site.line ⟨cs, es⟩ ⟨c :: cs, es⟩
  | body {c : Class} (cs : List Class) (es : List Enumeration) (line : Nat) (hbody : c.bodyLine = 0) :
      DeclarationStep r path lines line ⟨c :: cs, es⟩ ⟨{ c with bodyLine := line } :: cs, es⟩
  | field {site : MarkerSite} {access : Access} {text : List Char} {c : Class} {f : Field}
      (cs : List Class) (es : List Enumeration) (hsite : site.Declares r path lines text)
      (hbody : c.bodyLine ≠ 0) (hf : r.fieldOf site c access text = .ok f) :
      DeclarationStep r path lines site.line ⟨c :: cs, es⟩
        ⟨{ c with fields := c.fields ++ [f] } :: cs, es⟩
  | method {site : MarkerSite} {access : Access} {text : List Char} {c d : Class} {m : Method}
      (cs : List Class) (es : List Enumeration) (hsite : site.Declares r path lines text)
      (hbody : c.bodyLine ≠ 0) (hm : r.methodOf site c access text = .ok m)
      (hd : r.claimProperties c m = .ok d) :
      DeclarationStep r path lines site.line ⟨c :: cs, es⟩
        ⟨{ d with methods := d.methods ++ [m] } :: cs, es⟩
  | enumType {site : MarkerSite} {text rest : List Char} {head : EnumHead} {e : Enumeration}
      (cs : List Class) (es : List Enumeration) (hsite : site.Declares r path lines text)
      (hhead : EnumHead.read.split text = .ok (head, rest)) (he : r.enumOf site head = .ok e) :
      DeclarationStep r path lines site.line ⟨cs, es⟩ ⟨cs, e :: es⟩
  | enumerator {body : EnumBody} {text : List Char} {x : Enumerator} (cs : List Class)
      (es : List Enumeration) (line : Nat) (hlist : body.ListsAt r lines line)
      (htext : r.enumeratorAt? lines line = some text) (hx : r.enumeratorOf body line text = .ok x) :
      DeclarationStep r path lines line ⟨cs, body.declared :: es⟩
        ⟨cs, { body.declared with enumerators := body.declared.enumerators ++ [x] } :: es⟩

/-- What can be read of a text by changes at increasing lines, all of them before line `n`. -/
inductive Declarations.Reached (r : Reader) (path : SourcePath) (lines : List String) :
    Nat → Declarations → Prop where
  | start : Reached r path lines 0 {}
  | step {n line : Nat} {d e : Declarations} (h : Reached r path lines n d) (hline : n ≤ line)
      (hstep : DeclarationStep r path lines line d e) : Reached r path lines (line + 1) e

namespace Progress

/-- The classes and enums that have been read, with the enum whose body is open. -/
def declarations (p : Progress) : Declarations :=
  ⟨p.classes, match p.mode with
    | .enumerators body => body.declared :: p.enums
    | _ => p.enums⟩

/-- The first line that nothing has been declared at: that of a marker which waits for its declaration,
or the next one. -/
def frontier (p : Progress) (n : Nat) : Nat :=
  match p.mode with
  | .declaration _ site | .opening _ site => site.line
  | .between | .enumerators _ => n

/-- What waits for its declaration before line `n` stands in the text. -/
def ModeAt (p : Progress) (r : Reader) (path : SourcePath) (lines : List String) (n : Nat) : Prop :=
  match p.mode with
  | .between => True
  | .declaration _ site =>
    site.line < n ∧ r.textLine lines site.line = n ∧
      ∀ text, lineAt? lines n = some text → site.Declares r path lines text
  | .opening head site =>
    site.line < n ∧ r.braceLine lines site.line = n ∧ ∃ text rest, site.Declares r path lines text ∧
      EnumHead.read.split text = .ok (head, rest)
  | .enumerators body => body.WaitsAt r lines n

/-- What has been read before line `n` was reached by changes before that line. -/
structure ReadsTo (p : Progress) (r : Reader) (path : SourcePath) (lines : List String) (n : Nat) : Prop where
  mode : p.ModeAt r path lines n
  reached : ∃ m ≤ p.frontier n, p.declarations.Reached r path lines m
  path : p.path = path

end Progress

namespace Reader

variable {r : Reader} {path : SourcePath} {lines : List String} {p q : Progress} {n : Nat}

/-! ### Markers -/

section Marker

variable {line behind rest : List Char} {name : String} {kind : MarkerKind} {list : Bag}

theorem markerAt?_eq (hline : lineAt? lines n = some line) (hmarker : r.markers.find? line = some (name, kind, behind))
    (hlist : Lexer.attributeList.split behind = .ok (list, rest)) : r.markerAt? lines n = some (name, list, rest) := by
  simp only [markerAt?, hline, Option.bind_some, hmarker, hlist]
  rfl

theorem listAt?_eq (hline : lineAt? lines n = some line) (hmarker : r.markers.find? line = some (name, kind, behind))
    (hlist : Lexer.attributeList.split behind = .ok (list, rest)) : r.listAt? lines n = some list := by
  rw [listAt?, markerAt?_eq hline hmarker hlist, Option.map_some]

theorem textLine_eq (hline : lineAt? lines n = some line) (hmarker : r.markers.find? line = some (name, kind, behind))
    (hlist : Lexer.attributeList.split behind = .ok (list, rest)) :
    r.textLine lines n = if name ≠ r.markerName .body ∧ declarationText rest = [] then n + 1 else n := by
  unfold textLine
  rw [markerAt?_eq hline hmarker hlist]

theorem declarationAt?_eq (hline : lineAt? lines n = some line)
    (hmarker : r.markers.find? line = some (name, kind, behind))
    (hlist : Lexer.attributeList.split behind = .ok (list, rest)) :
    r.declarationAt? lines n =
      if name = r.markerName .body then some []
      else if declarationText rest = [] then lineAt? lines (n + 1) else some (declarationText rest) := by
  simp only [declarationAt?, hline, Option.bind_some, hmarker, hlist]
  refine ite_congr rfl (fun _ => rfl) fun _ => ?_
  split
  · rename_i hempty
    rw [if_pos hempty]
  · rename_i hne
    rw [if_neg hne]

theorem enumeratorMarkerAt?_eq {bag : Bag} (hline : lineAt? lines n = some line)
    (hmarker : ((r.markerName .enumerator).toList ++ ['(']).isPrefixOf line = true)
    (hlist : Lexer.attributeList.split (line.drop (r.markerName .enumerator).toList.length) = .ok (bag, rest)) :
    r.enumeratorMarkerAt? lines n = some (bag, trim rest) := by
  simp only [enumeratorMarkerAt?, hline, Option.bind_some, hmarker, if_true, hlist]
  rfl

theorem enumeratorMarkerAt?_eq_none (hline : lineAt? lines n = some line)
    (hmarker : ¬((r.markerName .enumerator).toList ++ ['(']).isPrefixOf line = true) :
    r.enumeratorMarkerAt? lines n = none := by
  simp only [enumeratorMarkerAt?, hline, Option.bind_some, hmarker, Bool.false_eq_true, if_false]

end Marker

/-! ### Lists that wait for an enumerator -/

theorem waitingList_of_le {brace : Nat} (h : n ≤ brace) : r.waitingList lines brace n = [] := by
  cases n with
  | zero => rfl
  | succ n => exact if_pos h

theorem waitingList_of_idle {brace : Nat} {line : List Char} (h : brace < n) (hline : lineAt? lines n = some line)
    (hidle : isIdle line = true) : r.waitingList lines brace n = r.waitingList lines brace (n - 1) := by
  cases n with
  | zero => exact absurd h (Nat.not_lt_zero brace)
  | succ n => simp [waitingList, Nat.not_le_of_lt h, hline, hidle]

/-- Behind any other line only its own list may wait. -/
theorem waitingList_of_busy {brace : Nat} {line : List Char} (h : brace < n) (hline : lineAt? lines n = some line)
    (hbusy : isIdle line = false) : r.waitingList lines brace n =
      match r.enumeratorMarkerAt? lines n with
      | some (bag, rest) => if isIdle rest then bag else []
      | none => [] := by
  cases n with
  | zero => exact absurd h (Nat.not_lt_zero brace)
  | succ n => simp [waitingList, Nat.not_le_of_lt h, hline, hbusy]

theorem enumOf_line (site : MarkerSite) (head : EnumHead) :
    Yields (r.enumOf site head) fun e => e.line = site.line := by
  refine .bind (.any _) fun _ _ => .bind (.any _) fun _ _ => .bind (.any _) fun _ _ => .bind (.any _) fun _ _ => ?_
  refine .bind (.any _) fun _ _ => .bind (.any _) fun _ _ => .bind (.any _) fun _ _ => .bind (.any _) fun _ _ => ?_
  exact .pure rfl

/-! ### Steps of the reader -/

/-- A change at a line of what was reached before. -/
theorem readsTo_step {line m : Nat} {d : Declarations} (hpath : q.path = path)
    (hmode : q.ModeAt r path lines (n + 1)) (hfrontier : q.frontier (n + 1) = n + 1)
    (hd : d.Reached r path lines m) (hm : m ≤ line) (hline : line ≤ n)
    (hstep : DeclarationStep r path lines line d q.declarations) : q.ReadsTo r path lines (n + 1) :=
  ⟨hmode, ⟨line + 1, by omega, .step hd hm hstep⟩, hpath⟩

theorem readsTo_same {m : Nat} (hpath : q.path = path) (hmode : q.ModeAt r path lines (n + 1))
    (hfrontier : m ≤ q.frontier (n + 1)) (hd : q.declarations.Reached r path lines m) :
    q.ReadsTo r path lines (n + 1) :=
  ⟨hmode, ⟨m, hfrontier, hd⟩, hpath⟩

section Line

variable {line : List Char} {m : Nat}

theorem waitsAt_start {site : MarkerSite} {e : Enumeration} {head : EnumHead} (he : r.enumOf site head = .ok e)
    (hbrace : r.braceLine lines site.line = n) : ({ declared := e } : EnumBody).WaitsAt r lines (n + 1) := by
  have hbrace : r.braceLine lines e.line = n := (enumOf_line site head e he).symm ▸ hbrace
  refine ⟨.nil, ?_, ?_⟩
  · rw [hbrace]
    exact Nat.lt_succ_self n
  · rw [hbrace, Nat.add_sub_cancel, waitingList_of_le (Nat.le_refl n)]

/-- The declaration behind a marker of the text makes one change. -/
theorem DeclareStep.readsTo {site : MarkerSite} {text : List Char} {kind : MarkerKind}
    (h : r.DeclareStep p site text kind q) (hpath : p.path = path)
    (hd : (⟨p.classes, p.enums⟩ : Declarations).Reached r path lines m) (hm : m ≤ site.line)
    (hline : site.line ≤ n) (htext : r.textLine lines site.line = n) (hsite : site.Declares r path lines text) :
    q.ReadsTo r path lines (n + 1) := by
  have hbrace : ∀ {head rest}, EnumHead.read.split text = .ok (head, rest) →
      r.braceLine lines site.line = if head.opened then n else n + 1 := by
    intro head rest hhead
    simp only [braceLine, hsite.text, Option.map_some, Lexer.eval_eq_ok_of_split hhead, htext]
  cases h with
  | classType hclosed hc =>
      exact readsTo_step hpath trivial rfl hd hm hline (.classType p.classes p.enums hsite hc hclosed)
  | @body c cs hclasses hbody =>
      rw [hclasses] at hd
      exact readsTo_step hpath trivial rfl hd hm hline (.body cs p.enums site.line hbody)
  | @field c cs f hclasses hbody hf =>
      rw [hclasses] at hd
      exact readsTo_step hpath trivial rfl hd hm hline (.field cs p.enums hsite hbody hf)
  | @method c d cs k hclasses hbody hk hclaim =>
      rw [hclasses] at hd
      exact readsTo_step hpath trivial rfl hd hm hline (.method cs p.enums hsite hbody hk hclaim)
  | @opening head rest hhead hopened =>
      have hbelow := (hbrace hhead).trans (if_neg (Bool.eq_false_iff.mp hopened))
      exact readsTo_same hpath ⟨Nat.lt_succ_of_le hline, hbelow, text, rest, hsite, hhead⟩
        (Nat.le_trans hm (Nat.le_refl _)) hd
  | @enumType head rest e hhead hopened hrest he =>
      exact readsTo_step hpath (waitsAt_start he ((hbrace hhead).trans (if_pos hopened))) rfl hd hm hline
        (.enumType p.classes p.enums hsite hhead he)

/-- A line in the body of an enum makes at most one change. -/
theorem EnumLineStep.readsTo {body : EnumBody} (h : r.EnumLineStep p body n line q) (hpath : p.path = path)
    (hd : (⟨p.classes, body.declared :: p.enums⟩ : Declarations).Reached r path lines m) (hm : m ≤ n)
    (hwaits : body.WaitsAt r lines n) (hline : lineAt? lines n = some line) : q.ReadsTo r path lines (n + 1) := by
  have hbrace := hwaits.brace
  have hnext := Nat.lt_succ_of_lt hbrace
  cases h with
  | closes => exact readsTo_same hpath trivial (Nat.le_succ_of_le hm) hd
  | idle hidle =>
      have hkept := hwaits.list.trans (waitingList_of_idle hbrace hline hidle).symm
      exact readsTo_same hpath ⟨hwaits.isList, hnext, hkept⟩ (Nat.le_succ_of_le hm) hd
  | list hstart hbusy hmarker hlist hidle =>
      refine readsTo_same hpath ⟨.of_split hlist, hnext, ?_⟩ (Nat.le_succ_of_le hm) hd
      dsimp only
      rw [Nat.add_sub_cancel, waitingList_of_busy hbrace hline hbusy, enumeratorMarkerAt?_eq hline hmarker hlist]
      exact (if_pos hidle).symm
  | @marked bag rest x hstart hbusy hmarker hlist hrest hx =>
      have hmarked := enumeratorMarkerAt?_eq hline hmarker hlist
      have hlists : ({ body with pending := bag } : EnumBody).ListsAt r lines n :=
        ⟨.of_split hlist, by rw [enumeratorList, hmarked]⟩
      have htext : r.enumeratorAt? lines n = some (trim rest) := by
        simp only [enumeratorAt?, hline, Option.bind_some, hmarker, if_true, hlist]
      have hadded := @DeclarationStep.enumerator r path lines _ _ _ p.classes p.enums n hlists htext hx
      refine readsTo_step hpath ⟨.nil, hnext, ?_⟩ rfl hd hm (Nat.le_refl n) hadded
      dsimp only [EnumBody.put]
      rw [Nat.add_sub_cancel, waitingList_of_busy hbrace hline hbusy, hmarked]
      exact (if_neg (Bool.eq_false_iff.mp hrest)).symm
  | plain hstart hbusy hmarker hx =>
      have hmarked := enumeratorMarkerAt?_eq_none (r := r) hline (Bool.eq_false_iff.mp hmarker)
      refine readsTo_step hpath ⟨.nil, hnext, ?_⟩ rfl hd hm (Nat.le_refl n)
        (.enumerator p.classes p.enums n ⟨hwaits.isList, ?_⟩ ?_ hx)
      · dsimp only [EnumBody.put]
        rw [Nat.add_sub_cancel, waitingList_of_busy hbrace hline hbusy, hmarked]
      · rw [enumeratorList, hmarked]
        exact hwaits.list
      · simp only [enumeratorAt?, hline, Option.bind_some, hmarker, Bool.false_eq_true, if_false]

theorem readLine_readsTo (hp : p.ReadsTo r path lines n) (hline : lineAt? lines n = some line)
    (h : r.readLine p n line = .ok q) : q.ReadsTo r path lines (n + 1) := by
  obtain ⟨m, hm, hd⟩ := hp.reached
  have hmodeAt := hp.mode
  unfold Progress.ModeAt at hmodeAt
  unfold Progress.frontier at hm
  unfold Progress.declarations at hd
  cases readLine_eq_ok.mp h with
  | plain hmode =>
      simp only [hmode] at hm hd
      refine readsTo_same hp.path ?_ (m := m) ?_ ?_
      · simp only [Progress.ModeAt, hmode]
      · simp only [Progress.frontier, hmode]
        exact Nat.le_succ_of_le hm
      · simpa only [Progress.declarations, hmode] using hd
  | marker hmode hmarker hlist hrest =>
      simp only [hmode] at hm hd
      have htext := (textLine_eq hline hmarker hlist).trans (if_pos hrest)
      refine readsTo_same hp.path ⟨Nat.lt_succ_self n, htext, fun text hbelow => ?_⟩ hm hd
      refine ⟨hp.path, .of_split hlist, ?_, listAt?_eq hline hmarker hlist⟩
      rw [declarationAt?_eq hline hmarker hlist, if_neg hrest.1, if_pos hrest.2]
      exact hbelow
  | @oneLine name kind behind rest list _ hmode hmarker hlist hrest hq =>
      simp only [hmode] at hm hd
      have htext := (textLine_eq hline hmarker hlist).trans (if_neg hrest)
      refine hq.readsTo hp.path hd hm (Nat.le_refl n) htext
        ⟨hp.path, .of_split hlist, ?_, listAt?_eq hline hmarker hlist⟩
      rw [declarationAt?_eq hline hmarker hlist]
      by_cases hname : name = r.markerName .body
      · rw [if_pos hname, if_pos hname]
      · rw [if_neg hname, if_neg hname, if_neg fun hempty => hrest ⟨hname, hempty⟩]
  | declaration hmode hq =>
      simp only [hmode] at hm hd hmodeAt
      obtain ⟨hbefore, htext, hsite⟩ := hmodeAt
      exact hq.readsTo hp.path hd hm (Nat.le_of_lt hbefore) htext (hsite line hline)
  | brace hmode _ _ he =>
      simp only [hmode] at hm hd hmodeAt
      obtain ⟨hbefore, hbrace, text, after, hsite, hhead⟩ := hmodeAt
      exact readsTo_step hp.path (waitsAt_start he hbrace) rfl hd hm (Nat.le_of_lt hbefore)
        (.enumType p.classes p.enums hsite hhead he)
  | enumLine hmode hq =>
      simp only [hmode] at hm hd hmodeAt
      exact hq.readsTo hp.path hd hm hmodeAt hline

end Line

/-! ### Whole headers -/

theorem runLines_readsTo {before ls : List String} (hlines : lines = before ++ ls)
    (hp : p.ReadsTo r path lines (before.length + 1))
    (h : r.runLines p (before.length + 1) ls = .ok q) : q.ReadsTo r path lines (lines.length + 1) := by
  induction ls generalizing p before with
  | nil =>
      obtain rfl : p = q := by simpa only [runLines, Except.ok.injEq] using h
      rw [hlines, List.append_nil]
      rwa [hlines, List.append_nil] at hp
  | cons l ls ih =>
      obtain ⟨p', hline, hrest⟩ := bind_eq_ok.mp h
      have hat : lineAt? lines (before.length + 1) = some (trim l.toList) := hlines ▸ lineAt?_append before ls l
      have hstep := readLine_readsTo hp hat (placedAt_eq_ok.mp hline)
      have hlines : lines = (before ++ [l]) ++ ls := by simp [hlines]
      refine ih (p := p') hlines ?_ ?_
      · simpa using hstep
      · simpa using hrest

theorem readsTo_start (r : Reader) (path : SourcePath) (lines : List String) :
    ({ path } : Progress).ReadsTo r path lines 1 :=
  ⟨trivial, ⟨0, Nat.zero_le 1, .start⟩, rfl⟩

/-- A header is reached by changes at increasing lines of its text. -/
theorem exists_reached_of_read {text : String} {h : Header} (hr : r.read path text = .ok h) :
    h.path = path ∧ ∃ n, h.declarations.Reached r path (Text.lines text) n := by
  obtain ⟨-, p, hp, hr⟩ := read_eq_ok.mp hr
  obtain ⟨hmode, -, rfl⟩ := finish_eq_ok.mp hr
  have hlines : Text.lines text = [] ++ Text.lines text := rfl
  have hend := runLines_readsTo hlines (readsTo_start r path (Text.lines text)) hp
  obtain ⟨m, _, hd⟩ := hend.reached
  have hdeclared : Header.declarations ⟨p.path, p.classes.reverse, p.enums.reverse⟩ = p.declarations := by
    simp [Header.declarations, Progress.declarations, hmode]
  exact ⟨hend.path, m, hdeclared ▸ hd⟩

/-! ### Invariants -/

/-- A property of classes that holds of a class head and is kept by what its body declares. -/
structure ClassInvariant (r : Reader) (path : SourcePath) (lines : List String) (P : Class → Prop) :
    Prop where
  declare : ∀ {site : MarkerSite} {text : List Char} {c : Class}, site.Declares r path lines text →
    r.classOf site text = .ok c → P c
  body : ∀ {c : Class} (line : Nat), P c → P { c with bodyLine := line }
  field : ∀ {site : MarkerSite} {access : Access} {text : List Char} {c : Class} {f : Field},
    site.Declares r path lines text → P c → r.fieldOf site c access text = .ok f →
      P { c with fields := c.fields ++ [f] }
  method : ∀ {site : MarkerSite} {access : Access} {text : List Char} {c d : Class} {m : Method},
    site.Declares r path lines text → P c → r.methodOf site c access text = .ok m →
      r.claimProperties c m = .ok d → P { d with methods := d.methods ++ [m] }

/-- A property of enums that holds of an enum head and is kept by further enumerators. -/
structure EnumInvariant (r : Reader) (path : SourcePath) (lines : List String)
    (P : Enumeration → Prop) : Prop where
  declare : ∀ {site : MarkerSite} {text rest : List Char} {head : EnumHead} {e : Enumeration},
    site.Declares r path lines text → EnumHead.read.split text = .ok (head, rest) →
      r.enumOf site head = .ok e → P e
  enumerator : ∀ {body : EnumBody} {line : Nat} {text : List Char} {x : Enumerator},
    body.ListsAt r lines line → r.enumeratorAt? lines line = some text → P body.declared →
      r.enumeratorOf body line text = .ok x →
        P { body.declared with enumerators := body.declared.enumerators ++ [x] }

theorem ClassInvariant.reached {P : Class → Prop} (hP : r.ClassInvariant path lines P) {d : Declarations}
    (h : d.Reached r path lines n) : ∀ c ∈ d.classes, P c := by
  induction h with
  | start => exact fun c hc => absurd hc List.not_mem_nil
  | step _ _ hstep ih =>
      cases hstep with
      | classType _ _ hsite hc => exact List.forall_mem_cons.mpr ⟨hP.declare hsite hc, ih⟩
      | body =>
          obtain ⟨hc, hcs⟩ := List.forall_mem_cons.mp ih
          exact List.forall_mem_cons.mpr ⟨hP.body _ hc, hcs⟩
      | field _ _ hsite _ hf =>
          obtain ⟨hc, hcs⟩ := List.forall_mem_cons.mp ih
          exact List.forall_mem_cons.mpr ⟨hP.field hsite hc hf, hcs⟩
      | method _ _ hsite _ hm hd =>
          obtain ⟨hc, hcs⟩ := List.forall_mem_cons.mp ih
          exact List.forall_mem_cons.mpr ⟨hP.method hsite hc hm hd, hcs⟩
      | enumType => exact ih
      | enumerator => exact ih

theorem EnumInvariant.reached {P : Enumeration → Prop} (hP : r.EnumInvariant path lines P)
    {d : Declarations} (h : d.Reached r path lines n) : ∀ e ∈ d.enums, P e := by
  induction h with
  | start => exact fun e he => absurd he List.not_mem_nil
  | step _ _ hstep ih =>
      cases hstep with
      | classType => exact ih
      | body => exact ih
      | field => exact ih
      | method => exact ih
      | enumType _ _ hsite hhead he => exact List.forall_mem_cons.mpr ⟨hP.declare hsite hhead he, ih⟩
      | enumerator _ _ _ hlist htext hx =>
          obtain ⟨he, hes⟩ := List.forall_mem_cons.mp ih
          exact List.forall_mem_cons.mpr ⟨hP.enumerator hlist htext he hx, hes⟩

/-- The classes of a header have every property that is invariant while it is read. -/
theorem read_classes {P : Class → Prop} {text : String} (hP : r.ClassInvariant path (Text.lines text) P)
    {h : Header} (hr : r.read path text = .ok h) : ∀ c ∈ h.classes, P c := by
  obtain ⟨_, n, hd⟩ := exists_reached_of_read hr
  exact fun c hc => hP.reached hd c (List.mem_reverse.mpr hc)

theorem read_enums {P : Enumeration → Prop} {text : String}
    (hP : r.EnumInvariant path (Text.lines text) P) {h : Header} (hr : r.read path text = .ok h) :
    ∀ e ∈ h.enums, P e := by
  obtain ⟨_, n, hd⟩ := exists_reached_of_read hr
  exact fun e he => hP.reached hd e (List.mem_reverse.mpr he)

theorem read_path {text : String} {h : Header} (hr : r.read path text = .ok h) : h.path = path :=
  (exists_reached_of_read hr).1

end Reader

end HeaderReflection
