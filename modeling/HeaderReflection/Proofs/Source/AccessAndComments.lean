import HeaderReflection.Proofs.Source.Characters
import HeaderReflection.Proofs.Source.Extents
import HeaderReflection.Proofs.Source.Layout

/-! # Access and comments of declarations

A header is read with a running access and with the comments of the lines above.  Both have a meaning that
does not need the run.

* The access of a member is what the last line before its marker set, of the marker of its class, the body
  marker of that class and the access labels between declarations (`Reader.LastAccess`).
* The comments of a declaration are those of the lines directly above its marker, as many as there are
  (`Reader.IsBlockAbove`).
* Lines that another declaration takes count for neither, so both are about free lines only.

Each is determined by the lines (`Reader.LastAccess.unique`, `Reader.IsBlockAbove.unique`).  That a header is
read this way is an invariant of the run: in front of every line, the running access and the comments so far
are those that the lines above say (`Reader.Progress.TracksAt`).  One line keeps it, with one case for a
marker, for a line in the body of an enum and for a plain line, and what a marker declares takes both over
(`Reader.access_and_comments_of_read`). -/

namespace HeaderReflection

open Checked Text

/-- The members of a class as declarations. -/
def Class.memberDeclarations (c : Class) : List Declaration :=
  c.fields.map (·.toDeclaration) ++ c.methods.map (·.toDeclaration)

variable {r : Reader} {path : SourcePath} {lines : List String} {p q : Progress} {n m line body : Nat} {a : Access}
  {cs : List String}

namespace Reader

/-! ### What the lines say -/

/-- The line, if it has no marker. -/
def plainAt? (r : Reader) (lines : List String) (n : Nat) : Option (List Char) :=
  (lineAt? lines n).filter fun line => (r.markers.find? line).isNone

/-- The access that the label at a line selects. -/
def labelAt? (r : Reader) (lines : List String) (n : Nat) : Option Access :=
  (r.plainAt? lines n).bind fun line => Access.ofLabelLine? (String.ofList line)

/-- The text of the documentation comment at a line. -/
def commentAt? (r : Reader) (lines : List String) (n : Nat) : Option String := (r.plainAt? lines n).bind commentText?

/-- The access that the class with its marker at a line begins with, from its keyword. -/
def firstAccess? (r : Reader) (lines : List String) (n : Nat) : Option Access :=
  ((r.declarationAt? lines n).bind fun own => (ClassHead.read.eval own).toOption).map fun head =>
    if head.isStruct then .everyone else .owner

/-- The lines that set the access of the members below, for a class with its marker at `line` and its body marker at
`body`. -/
inductive SetsAccess (r : Reader) (lines : List String) (line body : Nat) : Nat → Access → Prop where
  | head {a : Access} (hfirst : r.firstAccess? lines line = some a) : SetsAccess r lines line body line a
  | body : SetsAccess r lines line body body .everyone
  | label {n : Nat} {a : Access} (hfree : r.IsFree lines n) (hlabel : r.labelAt? lines n = some a) :
      SetsAccess r lines line body n a

/-- The last line before line `n` that sets the access sets this one. -/
def LastAccess (r : Reader) (lines : List String) (line body n : Nat) (a : Access) : Prop :=
  ∃ k < n, r.SetsAccess lines line body k a ∧ ∀ j b, k < j → j < n → ¬r.SetsAccess lines line body j b

/-- The lines behind `k` and before `n` are comments between declarations with these texts, and line `k` is none. -/
structure IsBlock (r : Reader) (lines : List String) (k n : Nat) (cs : List String) : Prop where
  before : k < n
  free : ∀ j, k < j → j < n → r.IsFree lines j
  texts : (List.range' (k + 1) (n - (k + 1))).map (r.commentAt? lines) = cs.map some
  maximal : ¬(r.IsFree lines k ∧ (r.commentAt? lines k).isSome)

/-- The texts are those of the comments directly above line `n`. -/
def IsBlockAbove (r : Reader) (lines : List String) (n : Nat) (cs : List String) : Prop := ∃ k, r.IsBlock lines k n cs

/-! ### Lines with a marker -/

theorem plainAt?_eq_some {line : List Char} (hline : lineAt? lines n = some line)
    (hmarker : r.markers.find? line = none) : r.plainAt? lines n = some line := by
  simp [plainAt?, hline, hmarker]

theorem plainAt?_eq_none {line : List Char} (hline : lineAt? lines n = some line)
    (hmarker : (r.markers.find? line).isSome) : r.plainAt? lines n = none := by
  have hmarked := Option.isSome_iff_ne_none.mp hmarker
  simp [plainAt?, hline, hmarked]

theorem plainAt?_of_kind {kind : MarkerKind} (h : r.kindAt? lines n = some kind) : r.plainAt? lines n = none := by
  obtain ⟨found, hfound, -⟩ := Option.map_eq_some_iff.mp h
  obtain ⟨line, hline, hmarker⟩ := Option.bind_eq_some_iff.mp hfound
  exact plainAt?_eq_none hline (Option.isSome_of_eq_some hmarker)

theorem plainAt?_of_first (h : r.firstAccess? lines n = some a) : r.plainAt? lines n = none := by
  obtain ⟨head, hhead, -⟩ := Option.map_eq_some_iff.mp h
  obtain ⟨own, hown, -⟩ := Option.bind_eq_some_iff.mp hhead
  unfold declarationAt? at hown
  cases hfound : (lineAt? lines n).bind r.markers.find? with
  | none => simp [hfound] at hown
  | some found =>
      obtain ⟨line, hline, hmarker⟩ := Option.bind_eq_some_iff.mp hfound
      exact plainAt?_eq_none hline (Option.isSome_of_eq_some hmarker)

theorem labelAt?_eq_none (h : r.plainAt? lines n = none) : r.labelAt? lines n = none := by
  rw [labelAt?, h]
  rfl

theorem commentAt?_eq_none (h : r.plainAt? lines n = none) : r.commentAt? lines n = none := by
  rw [commentAt?, h]
  rfl

/-! ### The last access -/

/-- A line sets one access, where the marker of the class and its body marker stand at two lines. -/
theorem SetsAccess.unique {b : Access} (hne : line ≠ body) (hbody : r.plainAt? lines body = none)
    (ha : r.SetsAccess lines line body n a) (hb : r.SetsAccess lines line body n b) : a = b := by
  have hmarked : r.plainAt? lines n = none → r.labelAt? lines n ≠ some b := fun hnone hsome => by
    cases (labelAt?_eq_none hnone).symm.trans hsome
  cases ha with
  | head hfirst =>
      cases hb with
      | head hsame => exact Option.some.inj (hfirst.symm.trans hsame)
      | body => exact absurd rfl hne
      | label _ hlabel => exact absurd hlabel (hmarked (plainAt?_of_first hfirst))
  | body =>
      cases hb with
      | head => exact absurd rfl hne
      | body => rfl
      | label _ hlabel => exact absurd hlabel (hmarked hbody)
  | label _ hlabel =>
      cases hb with
      | head hfirst => cases (labelAt?_eq_none (plainAt?_of_first hfirst)).symm.trans hlabel
      | body => cases (labelAt?_eq_none hbody).symm.trans hlabel
      | label _ hsame => exact Option.some.inj (hlabel.symm.trans hsame)

theorem LastAccess.unique {b : Access} (hne : line ≠ body) (hbody : r.plainAt? lines body = none)
    (ha : r.LastAccess lines line body n a) (hb : r.LastAccess lines line body n b) : a = b := by
  obtain ⟨k, hk, hset, hlast⟩ := ha
  obtain ⟨l, hl, hother, hend⟩ := hb
  rcases Nat.lt_trichotomy k l with hlt | rfl | hlt
  · exact absurd hother (hlast l b hlt hl)
  · exact hset.unique hne hbody hother
  · exact absurd hset (hend k a hlt hk)

/-- The lines that a line takes set no access. -/
theorem not_setsAccess_of_behind {j : Nat} {b : Access} (hfree : r.IsFree lines n) (hm : r.Behind lines n m)
    (hline : line ≤ n) (hbody : body ≤ n) (hnj : n < j) (hjm : j < m) : ¬r.SetsAccess lines line body j b := by
  intro hset
  cases hset with
  | head => exact absurd hnj (Nat.not_lt.mpr hline)
  | body => exact absurd hnj (Nat.not_lt.mpr hbody)
  | label hother => exact hfree.not_between hm hnj hjm hother

theorem SetsAccess.lastAccess (h : r.SetsAccess lines line body n a) (hfree : r.IsFree lines n)
    (hm : r.Behind lines n m) (hline : line ≤ n) (hbody : body ≤ n) : r.LastAccess lines line body m a :=
  ⟨n, hm.lt, h, fun _ _ => not_setsAccess_of_behind hfree hm hline hbody⟩

/-- Behind a line that is no label the access is what it was. -/
theorem LastAccess.across (h : r.LastAccess lines line body n a) (hfree : r.IsFree lines n) (hm : r.Behind lines n m)
    (hlabel : r.labelAt? lines n = none) (hline : line < n) (hbody : body < n) : r.LastAccess lines line body m a := by
  obtain ⟨k, hk, hset, hlast⟩ := h
  refine ⟨k, Nat.lt_trans hk hm.lt, hset, fun j b hkj hjm => ?_⟩
  rcases Nat.lt_trichotomy j n with hjn | rfl | hnj
  · exact hlast j b hkj hjn
  · intro hother
    cases hother with
    | head => exact Nat.lt_irrefl _ hline
    | body => exact Nat.lt_irrefl _ hbody
    | label _ hsome => cases hlabel.symm.trans hsome
  · exact not_setsAccess_of_behind hfree hm (Nat.le_of_lt hline) (Nat.le_of_lt hbody) hnj hjm

/-! ### Blocks of comments -/

theorem IsBlock.isSome_commentAt? {k j : Nat} (h : r.IsBlock lines k n cs) (hkj : k < j) (hjn : j < n) :
    (r.commentAt? lines j).isSome := by
  have hj : j ∈ List.range' (k + 1) (n - (k + 1)) := List.mem_range'_1.mpr ⟨hkj, by omega⟩
  have hmem := List.mem_map_of_mem (f := r.commentAt? lines) hj
  rw [h.texts] at hmem
  obtain ⟨s, -, hs⟩ := List.mem_map.mp hmem
  exact Option.isSome_of_eq_some hs.symm

theorem IsBlockAbove.unique {ds : List String} (hc : r.IsBlockAbove lines n cs) (hd : r.IsBlockAbove lines n ds) :
    cs = ds := by
  obtain ⟨k, hk⟩ := hc
  obtain ⟨l, hl⟩ := hd
  -- Of two blocks the one that begins earlier would go on through the line in front of the other one.
  rcases Nat.lt_trichotomy k l with hlt | rfl | hlt
  · exact absurd ⟨hk.free l hlt hl.before, hk.isSome_commentAt? hlt hl.before⟩ hl.maximal
  · exact List.map_injective_iff.mpr (fun _ _ => Option.some.inj) (hk.texts.symm.trans hl.texts)
  · exact absurd ⟨hl.free k hlt hk.before, hl.isSome_commentAt? hlt hk.before⟩ hk.maximal

theorem isBlockAbove_first : r.IsBlockAbove lines 1 [] :=
  ⟨0, Nat.one_pos, fun _ hpos hlt => absurd hpos (Nat.not_lt.mpr (Nat.le_of_lt_succ hlt)), rfl,
    fun h => absurd h.1.pos (Nat.not_succ_le_zero 0)⟩

/-- Behind a line that is no comment, and what it takes, no comments are left. -/
theorem isBlockAbove_behind (hfree : r.IsFree lines n) (hm : r.Behind lines n m)
    (hnone : r.commentAt? lines n = none) : r.IsBlockAbove lines m [] := by
  have hlt := hm.lt
  refine ⟨m - 1, by omega, fun j _ _ => by omega, ?_, ?_⟩
  · rw [Nat.sub_add_cancel (Nat.one_le_of_lt hlt), Nat.sub_self]
    rfl
  · -- The line above `m` is `n` itself, or one that `n` takes.
    rintro ⟨hother, hsome⟩
    rcases Nat.lt_or_eq_of_le (Nat.le_sub_one_of_lt hlt) with hbetween | heq
    · exact hfree.not_between hm hbetween (by omega) hother
    · rw [← heq, hnone] at hsome
      cases hsome

theorem IsBlockAbove.concat {s : String} (h : r.IsBlockAbove lines n cs) (hfree : r.IsFree lines n)
    (hs : r.commentAt? lines n = some s) : r.IsBlockAbove lines (n + 1) (cs ++ [s]) := by
  obtain ⟨k, hbefore, hall, htexts, hmaximal⟩ := h
  refine ⟨k, Nat.lt_succ_of_lt hbefore, fun j hkj hjn => ?_, ?_, hmaximal⟩
  · rcases Nat.lt_or_eq_of_le (Nat.le_of_lt_succ hjn) with hjn | rfl
    · exact hall j hkj hjn
    · exact hfree
  · have hcount : n + 1 - (k + 1) = n - (k + 1) + 1 := Nat.sub_add_comm hbefore
    have hlast : k + 1 + 1 * (n - (k + 1)) = n := by omega
    rw [hcount, List.range'_concat, hlast, List.map_append, htexts, List.map_append]
    exact congrArg (List.map some cs ++ ·) (congrArg (· :: []) hs)

end Reader

/-! ### What declarations are made with -/

/-- The declaration has the line and the comments of its marker, and the access. -/
structure Declaration.IsFrom (d : Declaration) (site : MarkerSite) (access : Access) : Prop where
  line : d.line = site.line
  access : d.access = access
  comments : d.comments = site.comments

/-- The class and its members have the comments above them, and the members have the last access before them. -/
structure Class.IsDescribed (c : Class) (r : Reader) (lines : List String) : Prop where
  comments : r.IsBlockAbove lines c.line c.comments
  access : ∀ d ∈ c.memberDeclarations, r.LastAccess lines c.line c.bodyLine d.line d.access
  memberComments : ∀ d ∈ c.memberDeclarations, r.IsBlockAbove lines d.line d.comments

theorem Class.mem_concat_field {c : Class} {f : Field} {d : Declaration} :
    d ∈ ({ c with fields := c.fields ++ [f] } : Class).memberDeclarations ↔
      d ∈ c.memberDeclarations ∨ d = f.toDeclaration := by
  unfold memberDeclarations
  simp only [List.map_append, List.mem_append, List.map_cons, List.map_nil, List.mem_singleton]
  exact or_right_comm

theorem Class.mem_concat_method {c : Class} {m : Method} {ps : Keyed Property} {d : Declaration} :
    d ∈ ({ c with properties := ps, methods := c.methods ++ [m] } : Class).memberDeclarations ↔
      d ∈ c.memberDeclarations ∨ d = m.toDeclaration := by
  unfold memberDeclarations
  simp only [List.map_append, List.mem_append, List.map_cons, List.map_nil, List.mem_singleton]
  exact or_assoc.symm

theorem Class.isDescribed_of_empty {c : Class} (hblock : r.IsBlockAbove lines c.line c.comments)
    (hempty : c.fields = [] ∧ c.methods = []) : c.IsDescribed r lines := by
  have hnone : c.memberDeclarations = [] := by
    unfold memberDeclarations
    rw [hempty.1, hempty.2]
    rfl
  refine ⟨hblock, ?_, ?_⟩ <;>
  · rw [hnone]
    exact fun d hd => absurd hd List.not_mem_nil

namespace Reader

theorem fieldOf_isFrom (site : MarkerSite) (owner : Class) (access : Access) (text : List Char) :
    Yields (r.fieldOf site owner access text) fun f => f.toDeclaration.IsFrom site access := by
  refine .bind (.any _) fun _ _ => .bind (.any _) fun _ _ => .bind (.any _) fun _ _ => ?_
  refine .bind (.any _) fun _ _ => .bind (.any _) fun _ _ => .bind (.any _) fun _ _ => ?_
  exact .bind (.any _) fun _ _ => .bind (.any _) fun _ _ => .pure ⟨rfl, rfl, rfl⟩

theorem methodOf_isFrom (site : MarkerSite) (owner : Class) (access : Access) (text : List Char) :
    Yields (r.methodOf site owner access text) fun m => m.toDeclaration.IsFrom site access := by
  refine .bind (.any _) fun _ _ => .bind (.any _) fun _ _ => .bind (.any _) fun _ _ => ?_
  refine .bind (.any _) fun _ _ => .bind (.any _) fun _ _ => .bind (.any _) fun _ _ => ?_
  exact .bind (.any _) fun _ _ => .pure ⟨rfl, rfl, rfl⟩

theorem enumOf_isFrom (site : MarkerSite) (head : EnumHead) :
    Yields (r.enumOf site head) fun e => e.toDeclaration.IsFrom site .unspecified := by
  refine .bind (.any _) fun _ _ => .bind (.any _) fun _ _ => .bind (.any _) fun _ _ => .bind (.any _) fun _ _ => ?_
  refine .bind (.any _) fun _ _ => .bind (.any _) fun _ _ => .bind (.any _) fun _ _ => .bind (.any _) fun _ _ => ?_
  exact .pure ⟨rfl, rfl, rfl⟩

theorem classFlags_declaredStruct (b : Bearer) (isStruct : Bool) :
    Yields (classFlags b isStruct) fun flags => flags.has .declaredStruct = isStruct := by
  refine .bind (.any _) fun _ _ => .bind (.any _) fun _ _ => .bind (.any _) fun _ _ => ?_
  refine .bind (.any _) fun _ _ => .bind (.any _) fun _ _ => .pure ?_
  simp [FlagSet.ofList]

theorem classOf_isFrom (site : MarkerSite) (text : List Char) :
    Yields (r.classOf site text) fun c => c.toDeclaration.IsFrom site .unspecified ∧
      ∃ head, ClassHead.read.eval text = .ok head ∧ initialAccess c = if head.isStruct then .everyone else .owner := by
  refine .bind (.lift fun head hhead => hhead) fun head hhead => .bind (.any _) fun b _ => ?_
  refine .bind (classFlags_declaredStruct b head.isStruct) fun flags hflags => ?_
  refine .ite (fun _ => .throw_bind _) fun _ => ?_
  refine .bind (.any _) fun _ _ => .bind (.any _) fun _ _ => .bind (.any _) fun _ _ => ?_
  refine .bind (.any _) fun _ _ => .bind (.any _) fun _ _ => ?_
  refine .bind (.any _) fun _ _ => .bind (.any _) fun _ _ => .pure ⟨⟨rfl, rfl, rfl⟩, head, hhead, ?_⟩
  simp only [initialAccess, hflags]

theorem firstAccess_invariant :
    r.ClassInvariant path lines fun c => r.firstAccess? lines c.line = some (initialAccess c) where
  declare := by
    intro site text c hsite hc
    obtain ⟨hfrom, head, hhead, hfirst⟩ := classOf_isFrom site text c hc
    unfold firstAccess?
    rw [hfrom.line, hsite.text, hfirst, Option.bind_some, hhead]
    rfl
  body := fun _ hc => hc
  field := fun _ hc _ => hc
  method := by
    intro site access text c d m _ hc _ hd
    obtain ⟨ps, rfl⟩ := claimProperties_yields c m d hd
    exact hc

end Reader

/-! ### What has been read -/

/-- The comments directly above line `n` are `cs`, the running access is the last one before it, and what was read above
has the access and the comments that the lines say. -/
structure Progress.TracksAt (p : Progress) (r : Reader) (lines : List String) (n : Nat) (cs : List String) : Prop where
  block : r.IsBlockAbove lines n cs
  access : ∀ c ∈ p.classes.head?, r.LastAccess lines c.line c.bodyLine n p.access
  behind : ∀ c ∈ p.classes.head?, c.line < n ∧ c.bodyLine < n
  classes : ∀ c ∈ p.classes, c.IsDescribed r lines
  enums : ∀ e ∈ p.enums, r.IsBlockAbove lines e.line e.comments

/-- The running access and comments are those of the lines before the next declaration, which begins at its marker if
it has been read that far; it has taken the comments then. -/
def Progress.Tracks (p : Progress) (r : Reader) (lines : List String) (n : Nat) : Prop :=
  match p.mode with
  | .between => p.TracksAt r lines n p.comments
  | .declaration _ site | .opening _ site => p.comments = [] ∧ p.TracksAt r lines site.line site.comments
  | .enumerators body => p.comments = [] ∧ p.TracksAt r lines body.declared.line body.declared.comments

namespace Progress.TracksAt

theorem of_same (h : p.TracksAt r lines n cs)
    (hsame : q.classes = p.classes ∧ q.enums = p.enums ∧ q.access = p.access) : q.TracksAt r lines n cs := by
  obtain ⟨hclasses, henums, haccess⟩ := hsame
  refine ⟨h.block, ?_, ?_, ?_, ?_⟩
  · rw [hclasses, haccess]
    exact h.access
  · rw [hclasses]
    exact h.behind
  · rw [hclasses]
    exact h.classes
  · rw [henums]
    exact h.enums

/-- Behind a line that is neither a label nor a comment, and what it takes, the access is what it was. -/
theorem across (h : p.TracksAt r lines n cs) (hfree : r.IsFree lines n) (hm : r.Behind lines n m)
    (hlabel : r.labelAt? lines n = none) (hcomment : r.commentAt? lines n = none) : p.TracksAt r lines m [] where
  block := Reader.isBlockAbove_behind hfree hm hcomment
  access := fun c hc => (h.access c hc).across hfree hm hlabel (h.behind c hc).1 (h.behind c hc).2
  behind := fun c hc => ⟨Nat.lt_trans (h.behind c hc).1 hm.lt, Nat.lt_trans (h.behind c hc).2 hm.lt⟩
  classes := h.classes
  enums := h.enums

theorem set_class {k : Class} {ks : List Class} (h : p.TracksAt r lines n cs) (hfree : r.IsFree lines n)
    (hm : r.Behind lines n m) (hcomment : r.commentAt? lines n = none)
    (hset : r.SetsAccess lines k.line k.bodyLine n a) (hline : k.line ≤ n) (hbody : k.bodyLine ≤ n)
    (hk : k.IsDescribed r lines) (hks : ∀ d ∈ ks, d ∈ p.classes) :
    ({ p with mode := .between, classes := k :: ks, access := a } : Progress).TracksAt r lines m [] where
  block := Reader.isBlockAbove_behind hfree hm hcomment
  access := by
    intro d hd
    obtain rfl := Option.some.inj hd
    exact hset.lastAccess hfree hm hline hbody
  behind := by
    intro d hd
    obtain rfl := Option.some.inj hd
    exact ⟨Nat.lt_of_le_of_lt hline hm.lt, Nat.lt_of_le_of_lt hbody hm.lt⟩
  classes := List.forall_mem_cons.mpr ⟨hk, fun d hd => h.classes d (hks d hd)⟩
  enums := h.enums

theorem isDescribed_concat {site : MarkerSite} {c k : Class} {d : Declaration}
    (h : p.TracksAt r lines site.line site.comments) (hc : c ∈ p.classes.head?) (hd : d.IsFrom site p.access)
    (hmark : k.line = c.line ∧ k.bodyLine = c.bodyLine ∧ k.comments = c.comments)
    (hmembers : ∀ x, x ∈ k.memberDeclarations ↔ x ∈ c.memberDeclarations ∨ x = d) : k.IsDescribed r lines := by
  have hdescribed := h.classes c (List.mem_of_mem_head? hc)
  obtain ⟨hline, hbody, hcomments⟩ := hmark
  refine ⟨?_, fun x hx => ?_, fun x hx => ?_⟩
  · rw [hline, hcomments]
    exact hdescribed.comments
  · rw [hline, hbody]
    rcases (hmembers x).mp hx with hold | rfl
    · exact hdescribed.access x hold
    · rw [hd.line, hd.access]
      exact h.access c hc
  · rcases (hmembers x).mp hx with hold | rfl
    · exact hdescribed.memberComments x hold
    · rw [hd.line, hd.comments]
      exact h.block

theorem change_class {c k : Class} {ks : List Class} (h : p.TracksAt r lines n cs) (hclasses : p.classes = c :: ks)
    (hmark : k.line = c.line ∧ k.bodyLine = c.bodyLine) (hk : k.IsDescribed r lines) :
    ({ p with mode := .between, classes := k :: ks } : Progress).TracksAt r lines n cs := by
  have hlast : c ∈ p.classes.head? := hclasses ▸ rfl
  have hall := h.classes
  rw [hclasses] at hall
  refine ⟨h.block, fun d hd => ?_, fun d hd => ?_, List.forall_mem_cons.mpr ⟨hk, fun d hd => ?_⟩, h.enums⟩
  · obtain rfl := Option.some.inj hd
    rw [hmark.1, hmark.2]
    exact h.access c hlast
  · obtain rfl := Option.some.inj hd
    rw [hmark.1, hmark.2]
    exact h.behind c hlast
  · exact hall d (List.mem_cons_of_mem c hd)

end Progress.TracksAt

namespace Reader

variable {site : MarkerSite} {text : List Char}

/-- A line without a marker sets the access if it is a label, and joins the comments if it is one. -/
theorem plainLine_tracksAt {line : List Char} (hp : p.TracksAt r lines n p.comments) (hfree : r.IsFree lines n)
    (hline : lineAt? lines n = some line) (hmarker : r.markers.find? line = none) :
    ({ p with access := (Access.ofLabelLine? (String.ofList line)).getD p.access } : Progress).TracksAt r lines (n + 1)
      (((commentText? line).map (p.comments ++ [·])).getD []) := by
  have hplain := plainAt?_eq_some hline hmarker
  have hlabelAt : r.labelAt? lines n = Access.ofLabelLine? (String.ofList line) := by
    rw [labelAt?, hplain]
    rfl
  have hcommentAt : r.commentAt? lines n = commentText? line := by
    rw [commentAt?, hplain]
    rfl
  have hbehind : r.Behind lines n (n + 1) := .plain (by rw [kindAt?_eq hline, hmarker]; rfl)
  refine ⟨?_, fun c hc => ?_, fun c hc => ?_, hp.classes, hp.enums⟩
  · cases hcomment : commentText? line with
    | none => exact isBlockAbove_behind hfree hbehind (hcommentAt.trans hcomment)
    | some s => exact hp.block.concat hfree (hcommentAt.trans hcomment)
  · have hc' := hp.behind c hc
    cases hlabel : Access.ofLabelLine? (String.ofList line) with
    | none => exact (hp.access c hc).across hfree hbehind (hlabelAt.trans hlabel) hc'.1 hc'.2
    | some a =>
        have hset : r.SetsAccess lines c.line c.bodyLine n a := .label hfree (hlabelAt.trans hlabel)
        exact hset.lastAccess hfree hbehind (Nat.le_of_lt hc'.1) (Nat.le_of_lt hc'.2)
  · exact ⟨Nat.lt_succ_of_lt (hp.behind c hc).1, Nat.lt_succ_of_lt (hp.behind c hc).2⟩

/-- What a marker declares has the comments above the marker and, in a class, the access in front of it. -/
theorem DeclareStep.tracks {kind : MarkerKind} (h : r.DeclareStep p site text kind q)
    (hp : p.TracksAt r lines site.line site.comments) (hnone : p.comments = []) (hfree : r.IsFree lines site.line)
    (hkind : r.kindAt? lines site.line = some kind) (htext : r.textLine lines site.line = n)
    (horder : ∀ c ∈ p.classes, c.InOrder)
    (hfirst : ∀ c ∈ q.classes, r.firstAccess? lines c.line = some (initialAccess c)) : q.Tracks r lines (n + 1) := by
  have hplain := plainAt?_of_kind hkind
  have hlabel := labelAt?_eq_none hplain
  have hcomment := commentAt?_eq_none hplain
  have hbehind : kind ≠ .enumType → r.Behind lines site.line (n + 1) := fun hother =>
    htext ▸ .declaration hkind hother
  have hacross : kind ≠ .enumType → p.TracksAt r lines (n + 1) p.comments := fun hother =>
    hnone ▸ hp.across hfree (hbehind hother) hlabel hcomment
  cases h with
  | @classType c _ hc =>
      obtain ⟨hfrom, -⟩ := classOf_isFrom site text c hc
      obtain ⟨head, -, hmakes⟩ := classOf_makes site text c hc
      have hline := hfrom.line
      have hset : r.SetsAccess lines c.line c.bodyLine site.line (initialAccess c) := by
        rw [← hline]
        exact .head (hfirst c List.mem_cons_self)
      have hblock : r.IsBlockAbove lines c.line c.comments := by
        rw [hline, hfrom.comments]
        exact hp.block
      have hk : c.IsDescribed r lines := Class.isDescribed_of_empty hblock ⟨hmakes.fields, hmakes.methods⟩
      have hzero : c.bodyLine ≤ site.line := classOf_unopened site text c hc ▸ Nat.zero_le _
      have hnext := hp.set_class hfree (hbehind nofun) hcomment hset (Nat.le_of_eq hline) hzero hk fun _ hd => hd
      rw [← hnone] at hnext
      exact hnext
  | @body c ks hclasses hbody =>
      have hlast : c ∈ p.classes.head? := hclasses ▸ rfl
      have hc : c ∈ p.classes := List.mem_of_mem_head? hlast
      have hk : ({ c with bodyLine := site.line } : Class).IsDescribed r lines :=
        Class.isDescribed_of_empty (hp.classes c hc).comments ((horder c hc).unopened hbody)
      have hks : ∀ d ∈ ks, d ∈ p.classes := fun d hd => hclasses ▸ List.mem_cons_of_mem c hd
      have hnext := hp.set_class (k := { c with bodyLine := site.line }) hfree (hbehind nofun) hcomment .body
        (Nat.le_of_lt (hp.behind c hlast).1) (Nat.le_refl _) hk hks
      rw [← hnone] at hnext
      exact hnext
  | @field c ks f hclasses _ hf =>
      have hfrom := fieldOf_isFrom site c p.access text f hf
      refine (hacross nofun).change_class hclasses ⟨rfl, rfl⟩ ?_
      have hlast : c ∈ p.classes.head? := hclasses ▸ rfl
      exact hp.isDescribed_concat hlast hfrom ⟨rfl, rfl, rfl⟩ fun _ => Class.mem_concat_field
  | @method c d ks m hclasses _ hm hd =>
      have hfrom := methodOf_isFrom site c p.access text m hm
      obtain ⟨ps, rfl⟩ := claimProperties_yields c m d hd
      refine (hacross nofun).change_class hclasses ⟨rfl, rfl⟩ ?_
      have hlast : c ∈ p.classes.head? := hclasses ▸ rfl
      exact hp.isDescribed_concat hlast hfrom ⟨rfl, rfl, rfl⟩ fun _ => Class.mem_concat_method
  | opening => exact ⟨hnone, hp.of_same ⟨rfl, rfl, rfl⟩⟩
  | @enumType head _ e _ _ _ he =>
      have hfrom := enumOf_isFrom site head e he
      refine ⟨hnone, ?_⟩
      show Progress.TracksAt _ r lines e.line e.comments
      rw [hfrom.line, hfrom.comments]
      exact hp.of_same ⟨rfl, rfl, rfl⟩

theorem EnumLineStep.tracks {line : List Char} {b : EnumBody} (h : r.EnumLineStep p b n line q)
    (hp : p.TracksAt r lines b.declared.line b.declared.comments) (hnone : p.comments = [])
    (hopen : r.IsOpenAt lines n b.declared) (hline : lineAt? lines n = some line) : q.Tracks r lines (n + 1) := by
  cases h with
  | closes hend =>
      obtain ⟨s, rfl⟩ := exists_brace_of_isEnumEnd hend
      have hend : EndsBody lines (r.braceLine lines b.declared.line) n := ⟨hopen.brace, ⟨s, hline⟩, hopen.goes_on⟩
      have hplain := plainAt?_of_kind hopen.kind
      have hacross := hp.across hopen.free (.enumType hopen.kind hend) (labelAt?_eq_none hplain)
        (commentAt?_eq_none hplain)
      rw [← hnone] at hacross
      have henums : ∀ e ∈ b.declared :: p.enums, r.IsBlockAbove lines e.line e.comments :=
        List.forall_mem_cons.mpr ⟨hp.block, hp.enums⟩
      exact ⟨hacross.block, hacross.access, hacross.behind, hp.classes, henums⟩
  | idle => exact ⟨hnone, hp.of_same ⟨rfl, rfl, rfl⟩⟩
  | list => exact ⟨hnone, hp.of_same ⟨rfl, rfl, rfl⟩⟩
  | marked => exact ⟨hnone, hp.of_same ⟨rfl, rfl, rfl⟩⟩
  | plain => exact ⟨hnone, hp.of_same ⟨rfl, rfl, rfl⟩⟩

/-- What is read at a line has the access and the comments that the lines above it say. -/
theorem tracks_step {line : List Char} (hp : p.ReadsTo r path lines n) (hfollows : p.Follows r lines n)
    (htracks : p.Tracks r lines n) (hline : lineAt? lines n = some line) (h : r.readLine p n line = .ok q) :
    q.Tracks r lines (n + 1) := by
  have hq := readLine_readsTo hp hline h
  obtain ⟨_, -, hreached⟩ := hp.reached
  have horder : ∀ c ∈ p.classes, c.InOrder := hreached.inOrder.classes
  obtain ⟨_, -, hreachedq⟩ := hq.reached
  have hfirst : ∀ c ∈ q.classes, r.firstAccess? lines c.line = some (initialAccess c) :=
    firstAccess_invariant.reached hreachedq
  have hstands := hfollows.stands
  have hmodeAt := hp.mode
  unfold Progress.StandsAt at hstands
  unfold Progress.ModeAt at hmodeAt
  unfold Progress.Tracks at htracks
  cases readLine_eq_ok.mp h with
  | plain hmode hmarker =>
      simp only [hmode] at hstands htracks
      unfold Progress.Tracks
      simp only [hmode]
      exact (plainLine_tracksAt htracks hstands hline hmarker).of_same ⟨rfl, rfl, rfl⟩
  | marker hmode hmarker hlist hrest =>
      simp only [hmode] at htracks
      exact ⟨rfl, htracks.of_same ⟨rfl, rfl, rfl⟩⟩
  | oneLine hmode hmarker hlist hrest hdeclare =>
      simp only [hmode] at hstands htracks
      have htext : r.textLine lines n = n := (textLine_eq hline hmarker hlist).trans (if_neg hrest)
      have hkind := (kindAt?_eq (r := r) hline).trans (congrArg (Option.map (·.2.1)) hmarker)
      exact hdeclare.tracks (htracks.of_same ⟨rfl, rfl, rfl⟩) rfl hstands hkind htext horder hfirst
  | declaration hmode hdeclare =>
      simp only [hmode] at hstands hmodeAt htracks
      exact hdeclare.tracks htracks.2 htracks.1 hstands.1 hstands.2 hmodeAt.2.1 horder hfirst
  | @brace head site _ e hmode _ _ he =>
      simp only [hmode] at htracks
      have hfrom := enumOf_isFrom site head e he
      refine ⟨htracks.1, ?_⟩
      show Progress.TracksAt _ r lines e.line e.comments
      rw [hfrom.line, hfrom.comments]
      exact htracks.2.of_same ⟨rfl, rfl, rfl⟩
  | enumLine hmode hbody =>
      simp only [hmode] at hstands htracks
      exact hbody.tracks htracks.2 htracks.1 hstands hline

/-! ### Runs -/

theorem tracks_of_take {k : Nat} (hk : k ≤ lines.length) (h : r.runLines { path } 1 (lines.take k) = .ok q) :
    q.Tracks r lines (k + 1) := by
  induction k generalizing q with
  | zero =>
      obtain rfl : ({ path } : Progress) = q := Except.ok.inj h
      exact ⟨isBlockAbove_first, fun c hc => absurd hc (Option.not_mem_none c),
        fun c hc => absurd hc (Option.not_mem_none c), fun c hc => absurd hc List.not_mem_nil,
        fun e he => absurd he List.not_mem_nil⟩
  | succ k ih =>
      obtain ⟨p, hp, hread⟩ := exists_readLine_of_take hk h
      obtain ⟨hreads, hfollows⟩ := follows_of_take (Nat.le_of_succ_le hk) hp
      exact tracks_step hreads hfollows (ih (Nat.le_of_succ_le hk) hp) (lineAt?_succ hk) hread

theorem body_of_mem_classes {text : String} {h : Header} (hr : r.read path text = .ok h) {c : Class}
    (hc : c ∈ h.classes) : c.line < c.bodyLine ∧ r.plainAt? (Text.lines text) c.bodyLine = none := by
  have hopen := bodyLine_ne_zero hr c hc
  obtain ⟨_, line, name, behind, -, -, hline, hmarker⟩ := (readsMarker_body_iff hr).mpr ⟨c, hc, rfl⟩
  obtain ⟨-, m, hreached⟩ := exists_reached_of_read hr
  exact ⟨(hreached.inOrder.classes c (List.mem_reverse.mpr hc)).body hopen,
    plainAt?_eq_none hline (Option.isSome_of_eq_some hmarker)⟩

/-- The access of a member is the one that the last line before its marker sets, of the marker of its class, the body
marker of the class and the labels between declarations.  The comments of a declaration are those of the lines
directly above its marker, as far up as these are comments between declarations. -/
theorem access_and_comments_of_read {text : String} {h : Header} (hr : r.read path text = .ok h) :
    (∀ c ∈ h.classes, (∀ cs, r.IsBlockAbove (Text.lines text) c.line cs ↔ cs = c.comments) ∧
      ∀ d ∈ c.memberDeclarations,
        (∀ a, r.LastAccess (Text.lines text) c.line c.bodyLine d.line a ↔ a = d.access) ∧
          ∀ cs, r.IsBlockAbove (Text.lines text) d.line cs ↔ cs = d.comments) ∧
      ∀ e ∈ h.enums, ∀ cs, r.IsBlockAbove (Text.lines text) e.line cs ↔ cs = e.comments := by
  have hblock : ∀ {n : Nat} {own : List String}, r.IsBlockAbove (Text.lines text) n own →
      ∀ cs, r.IsBlockAbove (Text.lines text) n cs ↔ cs = own := fun hown cs =>
    ⟨fun hcs => hcs.unique hown, fun heq => heq ▸ hown⟩
  obtain ⟨p, hp, -, hmode, rfl⟩ := exists_follows_of_read hr
  rw [← List.take_length (l := Text.lines text)] at hp
  have htracks := tracks_of_take (Nat.le_refl _) hp
  unfold Progress.Tracks at htracks
  simp only [hmode] at htracks
  refine ⟨fun c hc => ?_, fun e he => hblock (htracks.enums e (List.mem_reverse.mp he))⟩
  have hdescribed := htracks.classes c (List.mem_reverse.mp hc)
  obtain ⟨hlt, hbody⟩ := body_of_mem_classes hr hc
  refine ⟨hblock hdescribed.comments, fun d hd => ⟨fun a => ⟨fun ha => ?_, fun heq => ?_⟩, ?_⟩⟩
  · exact ha.unique (Nat.ne_of_lt hlt) hbody (hdescribed.access d hd)
  · exact heq ▸ hdescribed.access d hd
  · exact hblock (hdescribed.memberComments d hd)

/-- A field below a label and a comment. -/
theorem access_and_comments_of_read_label :
    ∃ text h, (Reader.ofSettings {}).read ⟨.relative, ["Unit.h"]⟩ text = .ok h ∧
      ∃ c ∈ h.classes, ∃ d ∈ c.memberDeclarations,
        (Reader.ofSettings {}).LastAccess (Text.lines text) c.line c.bodyLine d.line .subclasses ∧
          (Reader.ofSettings {}).IsBlockAbove (Text.lines text) d.line ["Points left."] := by
  have hrun : ((Reader.ofSettings {}).read ⟨.relative, ["Unit.h"]⟩
      "RClass()\nstruct Unit \x7b\nRBody();\nprotected:\n/// Points left.\nRField()\nint Hp;\n\x7d;"
      |>.toOption.any fun h => h.classes.any fun c => c.memberDeclarations.any fun d =>
        d.access == .subclasses && d.comments == ["Points left."]) = true := by
    rw [read_ofList]
    decide +kernel
  obtain ⟨h, hread, hrun⟩ := Checked.exists_ok_of_any hrun
  obtain ⟨c, hc, hrun⟩ := List.any_eq_true.mp hrun
  obtain ⟨d, hd, hrun⟩ := List.any_eq_true.mp hrun
  obtain ⟨haccess, hcomments⟩ := Bool.and_eq_true_iff.mp hrun
  obtain ⟨hlast, hblock⟩ := ((access_and_comments_of_read hread).1 c hc).2 d hd
  refine ⟨_, h, hread, c, hc, d, hd, (hlast _).mpr ?_, (hblock _).mpr ?_⟩
  · exact (eq_of_beq haccess).symm
  · exact (eq_of_beq hcomments).symm

end Reader

end HeaderReflection
