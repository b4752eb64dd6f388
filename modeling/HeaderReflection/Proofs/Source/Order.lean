import HeaderReflection.Proofs.Source.Lines

/-! # The order of declarations

What has been read stands in the order of the lines (`Declarations.InOrder`).

* A class begins behind everything that the classes before it hold, and all classes but the last one are
  complete.
* The members of a class stand behind its body marker, fields among themselves and methods among themselves in
  the order of their lines.
* Enumerators stand behind the head of their enum, in the order of their lines.

All of this is said relative to a line that is behind everything so far.  A change at this line keeps the
order with the next line (`DeclarationStep.inOrder`), so it holds of all that is reached
(`Declarations.Reached.inOrder`): a new class is put behind the others, and otherwise only the last class or
enum changes, where it stood.

Every line at which something is declared is a line of the text (`Declarations.Reached.exists_line`), since
changes come from markers and enumerators that stand there. -/

namespace HeaderReflection

open Checked

theorem pairwise_concat {l : List Nat} {n : Nat} (hl : l.Pairwise (· < ·)) (hn : ∀ a ∈ l, a < n) :
    (l ++ [n]).Pairwise (· < ·) := by
  rw [List.pairwise_append]
  refine ⟨hl, List.pairwise_singleton _ n, fun a ha b hb => ?_⟩
  obtain rfl := List.mem_singleton.mp hb
  exact hn a ha

/-! ### Classes and enums -/

/-- Everything that a class holds stands before line `n`. -/
structure Class.EndsBefore (c : Class) (n : Nat) : Prop where
  line : c.line < n
  bodyLine : c.bodyLine < n
  fields : ∀ f ∈ c.fields, f.line < n
  methods : ∀ m ∈ c.methods, m.line < n

theorem Class.EndsBefore.mono {c : Class} {m n : Nat} (h : c.EndsBefore m) (hle : m ≤ n) : c.EndsBefore n :=
  ⟨Nat.lt_of_lt_of_le h.line hle, Nat.lt_of_lt_of_le h.bodyLine hle,
    fun f hf => Nat.lt_of_lt_of_le (h.fields f hf) hle, fun m hm => Nat.lt_of_lt_of_le (h.methods m hm) hle⟩

/-- The members of a class stand behind its body marker, each kind of them in the order of the lines. -/
structure Class.InOrder (c : Class) : Prop where
  unopened : c.bodyLine = 0 → c.fields = [] ∧ c.methods = []
  body : c.bodyLine ≠ 0 → c.line < c.bodyLine
  fields : (c.bodyLine :: c.fields.map (·.line)).Pairwise (· < ·)
  methods : (c.bodyLine :: c.methods.map (·.line)).Pairwise (· < ·)

namespace Class

variable {c : Class} {n : Nat}

theorem inOrder_head (hbody : c.bodyLine = 0) (hfields : c.fields = []) (hmethods : c.methods = []) :
    c.InOrder := by
  refine ⟨fun _ => ⟨hfields, hmethods⟩, fun h => absurd hbody h, ?_, ?_⟩
  · rw [hfields]
    exact List.pairwise_singleton _ _
  · rw [hmethods]
    exact List.pairwise_singleton _ _

theorem InOrder.body_at (hc : c.InOrder) (hbody : c.bodyLine = 0) (hn : c.line < n) :
    ({ c with bodyLine := n } : Class).InOrder := by
  obtain ⟨hfields, hmethods⟩ := hc.unopened hbody
  have hopen : n ≠ 0 := Nat.ne_zero_of_lt hn
  refine ⟨fun h => absurd h hopen, fun _ => hn, ?_, ?_⟩
  · dsimp only
    rw [hfields]
    exact List.pairwise_singleton _ n
  · dsimp only
    rw [hmethods]
    exact List.pairwise_singleton _ n

theorem EndsBefore.body_at (hc : c.EndsBefore n) : ({ c with bodyLine := n } : Class).EndsBefore (n + 1) :=
  ⟨Nat.lt_succ_of_lt hc.line, Nat.lt_succ_self n, fun f hf => Nat.lt_succ_of_lt (hc.fields f hf),
    fun m hm => Nat.lt_succ_of_lt (hc.methods m hm)⟩

theorem InOrder.concat_field (hc : c.InOrder) (hbody : c.bodyLine ≠ 0) {f : Field}
    (hf : c.EndsBefore f.line) : ({ c with fields := c.fields ++ [f] } : Class).InOrder := by
  refine ⟨fun h => absurd h hbody, hc.body, ?_, hc.methods⟩
  dsimp only
  rw [List.map_append]
  refine pairwise_concat (l := c.bodyLine :: c.fields.map (·.line)) hc.fields ?_
  refine List.forall_mem_cons.mpr ⟨hf.bodyLine, fun a ha => ?_⟩
  obtain ⟨g, hg, rfl⟩ := List.mem_map.mp ha
  exact hf.fields g hg

theorem EndsBefore.concat_field (hc : c.EndsBefore n) {f : Field} (hf : f.line = n) :
    ({ c with fields := c.fields ++ [f] } : Class).EndsBefore (n + 1) := by
  have hnext := hc.mono (Nat.le_succ n)
  refine ⟨hnext.line, hnext.bodyLine, fun g hg => ?_, hnext.methods⟩
  rcases List.mem_append.mp hg with hg | hg
  · exact hnext.fields g hg
  · obtain rfl := List.mem_singleton.mp hg
    exact hf ▸ Nat.lt_succ_self _

theorem InOrder.concat_method (hc : c.InOrder) (hbody : c.bodyLine ≠ 0) {m : Method}
    (hm : c.EndsBefore m.line) (ps : Keyed Property) :
    ({ c with properties := ps, methods := c.methods ++ [m] } : Class).InOrder := by
  refine ⟨fun h => absurd h hbody, hc.body, hc.fields, ?_⟩
  dsimp only
  rw [List.map_append]
  refine pairwise_concat (l := c.bodyLine :: c.methods.map (·.line)) hc.methods ?_
  refine List.forall_mem_cons.mpr ⟨hm.bodyLine, fun a ha => ?_⟩
  obtain ⟨k, hk, rfl⟩ := List.mem_map.mp ha
  exact hm.methods k hk

theorem EndsBefore.concat_method (hc : c.EndsBefore n) {m : Method} (hm : m.line = n) (ps : Keyed Property) :
    ({ c with properties := ps, methods := c.methods ++ [m] } : Class).EndsBefore (n + 1) := by
  have hnext := hc.mono (Nat.le_succ n)
  refine ⟨hnext.line, hnext.bodyLine, hnext.fields, fun k hk => ?_⟩
  rcases List.mem_append.mp hk with hk | hk
  · exact hnext.methods k hk
  · obtain rfl := List.mem_singleton.mp hk
    exact hm ▸ Nat.lt_succ_self _

end Class

/-! ### All that has been read -/

/-- What has been read before line `n` stands in the order of the lines.  The lists begin with what was read
last, and only the first class may still lack its body marker. -/
structure Declarations.InOrder (d : Declarations) (n : Nat) : Prop where
  classes : ∀ c ∈ d.classes, c.InOrder
  before : ∀ c ∈ d.classes, c.EndsBefore n
  apart : d.classes.Pairwise fun later c => c.EndsBefore later.line
  closed : ∀ c ∈ d.classes.tail, c.bodyLine ≠ 0
  enums : ∀ e ∈ d.enums, e.ownLines.Pairwise (· < ·)
  enumsBefore : ∀ e ∈ d.enums, ∀ l ∈ e.ownLines, l < n

namespace Declarations.InOrder

variable {d : Declarations} {c k : Class} {cs : List Class} {e : Enumeration} {es : List Enumeration} {m n : Nat}

theorem empty : ({} : Declarations).InOrder 0 :=
  ⟨fun _ h => absurd h List.not_mem_nil, fun _ h => absurd h List.not_mem_nil, .nil,
    fun _ h => absurd h List.not_mem_nil, fun _ h => absurd h List.not_mem_nil,
    fun _ h => absurd h List.not_mem_nil⟩

theorem mono (h : d.InOrder m) (hle : m ≤ n) : d.InOrder n :=
  ⟨h.classes, fun c hc => (h.before c hc).mono hle, h.apart, h.closed, h.enums,
    fun e he l hl => Nat.lt_of_lt_of_le (h.enumsBefore e he l hl) hle⟩

/-- A new class begins behind all others, the last of which is complete. -/
theorem cons_class (h : (⟨cs, es⟩ : Declarations).InOrder n) (hclosed : ∀ k ∈ cs.head?, k.bodyLine ≠ 0)
    (hline : c.line = n) (hc : c.InOrder) (hbefore : c.EndsBefore (n + 1)) :
    (⟨c :: cs, es⟩ : Declarations).InOrder (n + 1) := by
  have hmono := h.mono (Nat.le_succ n)
  refine ⟨List.forall_mem_cons.mpr ⟨hc, h.classes⟩, List.forall_mem_cons.mpr ⟨hbefore, hmono.before⟩,
    List.pairwise_cons.mpr ⟨fun k hk => hline ▸ h.before k hk, h.apart⟩, ?_, h.enums, hmono.enumsBefore⟩
  cases cs with
  | nil => exact fun k hk => absurd hk List.not_mem_nil
  | cons k ks => exact List.forall_mem_cons.mpr ⟨hclosed k rfl, h.closed⟩

/-- The last class may grow as long as it begins where it began. -/
theorem change_class (h : (⟨c :: cs, es⟩ : Declarations).InOrder n) (hline : k.line = c.line) (hk : k.InOrder)
    (hbefore : k.EndsBefore (n + 1)) : (⟨k :: cs, es⟩ : Declarations).InOrder (n + 1) := by
  have hmono := h.mono (Nat.le_succ n)
  obtain ⟨hapart, hothers⟩ := List.pairwise_cons.mp h.apart
  exact ⟨List.forall_mem_cons.mpr ⟨hk, (List.forall_mem_cons.mp h.classes).2⟩,
    List.forall_mem_cons.mpr ⟨hbefore, (List.forall_mem_cons.mp hmono.before).2⟩,
    List.pairwise_cons.mpr ⟨fun b hb => hline ▸ hapart b hb, hothers⟩, h.closed, h.enums, hmono.enumsBefore⟩

theorem put_enum (h : (⟨cs, es⟩ : Declarations).InOrder n) (he : e.ownLines.Pairwise (· < ·))
    (hbefore : ∀ l ∈ e.ownLines, l < n + 1) {others : List Enumeration} (hothers : others ⊆ es) :
    (⟨cs, e :: others⟩ : Declarations).InOrder (n + 1) := by
  have hmono := h.mono (Nat.le_succ n)
  exact ⟨h.classes, hmono.before, h.apart, h.closed,
    List.forall_mem_cons.mpr ⟨he, fun b hb => h.enums b (hothers hb)⟩,
    List.forall_mem_cons.mpr ⟨hbefore, fun b hb => hmono.enumsBefore b (hothers hb)⟩⟩

end Declarations.InOrder

theorem Reader.classOf_unopened {r : Reader} (site : MarkerSite) (text : List Char) :
    Yields (r.classOf site text) fun c => c.bodyLine = 0 := by
  refine .bind (.any _) fun _ _ => .bind (.any _) fun _ _ => .bind (.any _) fun _ _ => ?_
  refine .ite (fun _ => .throw_bind _) fun _ => ?_
  refine .bind (.any _) fun _ _ => .bind (.any _) fun _ _ => .bind (.any _) fun _ _ => ?_
  refine .bind (.any _) fun _ _ => .bind (.any _) fun _ _ => ?_
  exact .bind (.any _) fun _ _ => .bind (.any _) fun _ _ => .pure rfl

variable {r : Reader} {path : SourcePath} {lines : List String}

/-- A change at a line behind everything keeps the order. -/
theorem DeclarationStep.inOrder {d e : Declarations} {line : Nat} (h : DeclarationStep r path lines line d e)
    (hd : d.InOrder line) : e.InOrder (line + 1) := by
  cases h with
  | @classType site text c cs es _ hc hclosed =>
      obtain ⟨head, -, hmakes⟩ := Reader.classOf_makes site text c hc
      have hbody := Reader.classOf_unopened site text c hc
      have hline : c.line = site.line := hmakes.made.line
      refine hd.cons_class hclosed hline (Class.inOrder_head hbody hmakes.fields hmakes.methods) ?_
      refine ⟨by omega, by omega, ?_, ?_⟩
      · rw [hmakes.fields]
        exact fun f hf => absurd hf List.not_mem_nil
      · rw [hmakes.methods]
        exact fun m hm => absurd hm List.not_mem_nil
  | @body c cs es line hbody =>
      have hc := hd.classes c List.mem_cons_self
      have hbefore := hd.before c List.mem_cons_self
      exact hd.change_class rfl (hc.body_at hbody hbefore.line) hbefore.body_at
  | @field site access text c f cs es _ hbody hf =>
      obtain ⟨t, -, hmade⟩ := Reader.fieldOf_makes site c access text f hf
      have hc := hd.classes c List.mem_cons_self
      have hbefore := hd.before c List.mem_cons_self
      exact hd.change_class rfl (hc.concat_field hbody (hmade.line ▸ hbefore)) (hbefore.concat_field hmade.line)
  | @method site access text c d m cs es _ hbody hm hclaims =>
      obtain ⟨t, -, hmade⟩ := Reader.methodOf_makes site c access text m hm
      obtain ⟨ps, rfl⟩ := Reader.claimProperties_yields c m d hclaims
      have hc := hd.classes c List.mem_cons_self
      have hbefore := hd.before c List.mem_cons_self
      exact hd.change_class rfl (hc.concat_method hbody (hmade.line ▸ hbefore) ps)
        (hbefore.concat_method hmade.line ps)
  | @enumType site text rest head e cs es _ _ he =>
      have hown := (Reader.enumOf_makes site head e he).ownLines
      refine hd.put_enum ?_ ?_ (List.Subset.refl es)
      · rw [hown]
        exact List.pairwise_singleton _ _
      · rw [hown]
        exact fun l hl => List.mem_singleton.mp hl ▸ Nat.lt_succ_self _
  | @enumerator body text x cs es line _ _ hx =>
      obtain ⟨t, -, -, hmade⟩ := Reader.enumeratorOf_makes body line text x hx
      have hown : ({ body.declared with enumerators := body.declared.enumerators ++ [x] } : Enumeration).ownLines =
          body.declared.ownLines ++ [line] := by
        simp [Enumeration.ownLines, hmade.line]
      have hbefore := hd.enumsBefore body.declared List.mem_cons_self
      refine hd.put_enum ?_ ?_ (List.subset_cons_self body.declared es)
      · rw [hown]
        exact pairwise_concat (hd.enums body.declared List.mem_cons_self) hbefore
      · rw [hown]
        intro l hl
        rcases List.mem_append.mp hl with hl | hl
        · exact Nat.lt_succ_of_lt (hbefore l hl)
        · exact List.mem_singleton.mp hl ▸ Nat.lt_succ_self line

theorem Declarations.Reached.inOrder {n : Nat} {d : Declarations} (h : d.Reached r path lines n) :
    d.InOrder n := by
  induction h with
  | start => exact .empty
  | step _ hline hstep ih => exact hstep.inOrder (ih.mono hline)

/-! ### Lines of the text -/

theorem isSome_lineAt?_iff {n : Nat} : (lineAt? lines n).isSome ↔ 1 ≤ n ∧ n ≤ lines.length := by
  unfold lineAt?
  split
  · rename_i hn
    simp [hn]
  · rename_i hn
    rw [Option.isSome_map, Option.isSome_iff_exists]
    constructor
    · rintro ⟨l, hl⟩
      have hbound := (List.getElem?_eq_some_iff.mp hl).1
      omega
    · rintro ⟨hpos, hle⟩
      have hbound : n - 1 < lines.length := by omega
      exact ⟨_, List.getElem?_eq_getElem hbound⟩

theorem MarkerSite.Declares.isSome_lineAt? {site : MarkerSite} {text : List Char}
    (h : site.Declares r path lines text) : (lineAt? lines site.line).isSome := by
  have htext := h.text
  unfold Reader.declarationAt? at htext
  cases hline : lineAt? lines site.line with
  | some line => rfl
  | none => simp [hline] at htext

theorem Reader.isSome_lineAt?_of_enumeratorAt? {n : Nat} {text : List Char}
    (h : r.enumeratorAt? lines n = some text) : (lineAt? lines n).isSome := by
  unfold Reader.enumeratorAt? at h
  obtain ⟨line, hline, -⟩ := Option.bind_eq_some_iff.mp h
  rw [hline]
  rfl

/-- A change that declares something does so at a line of the text. -/
theorem DeclarationStep.exists_line {d e : Declarations} {line : Nat}
    (h : DeclarationStep r path lines line d e) : (lineAt? lines line).isSome ∨ e.ownLines = d.ownLines := by
  cases h with
  | classType _ _ hsite => exact .inl hsite.isSome_lineAt?
  | body => exact .inr rfl
  | field _ _ hsite => exact .inl hsite.isSome_lineAt?
  | method _ _ hsite => exact .inl hsite.isSome_lineAt?
  | enumType _ _ hsite => exact .inl hsite.isSome_lineAt?
  | enumerator _ _ _ _ htext => exact .inl (Reader.isSome_lineAt?_of_enumeratorAt? htext)

theorem Declarations.Reached.exists_line {n : Nat} {d : Declarations} (h : d.Reached r path lines n) :
    ∀ l ∈ d.ownLines, (lineAt? lines l).isSome := by
  induction h with
  | start => exact fun l hl => absurd hl List.not_mem_nil
  | @step n line d e _ _ hstep ih =>
      rcases hstep.exists_line with hline | hsame
      · intro l hl
        rcases hstep.ownLines with hperm | hsame
        · rcases List.mem_cons.mp (hperm.mem_iff.mp hl) with rfl | hl
          · exact hline
          · exact ih l hl
        · exact ih l (hsame ▸ hl)
      · rw [hsame]
        exact ih

theorem Reader.bounds_of_mem_ownLines {text : String} {h : Header} (hr : r.read path text = .ok h) {l : Nat}
    (hl : l ∈ h.ownLines) : 1 ≤ l ∧ l ≤ (Text.lines text).length := by
  obtain ⟨-, n, hreached⟩ := exists_reached_of_read hr
  exact isSome_lineAt?_iff.mp (hreached.exists_line l (h.ownLines_perm.mem_iff.mp hl))

end HeaderReflection
