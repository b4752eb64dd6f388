import HeaderReflection.Proofs.Checked
import HeaderReflection.Proofs.Lexer.CommentedRuns
import HeaderReflection.Source.ClassHead
import HeaderReflection.Source.EnumText
import HeaderReflection.Source.FieldText
import HeaderReflection.Source.MethodText

/-! # Declarations in front of comments

A comment behind the text of a declaration does not change what is read of it, unless part of the text goes on
up to a stop that is not there.

* The attributes in front, names, words and parameter lists are steady: they end where a bracket, a word or a
  mark does.
* The bases of a class and the base type of an enum go on up to the opening brace (`ClassHead.isClosed`,
  `EnumHead.isClosed`), and a return type behind an arrow up to a brace, a semicolon or an equality sign
  (`MethodText.isClosed`).  So the text has to be closed: it has the opening of such a part only if it has a
  stop for it.
* A field always ends at a semicolon, so every comment stands behind it (`FieldText.settledAt_read`).

Each of the readers is cut in two, in front of the part that goes on up to a stop.  The first half is steady
everywhere, and what it leaves decides whether the text is closed (`Lexer.closes`). -/

namespace HeaderReflection

open Text TrailingComment

namespace Lexer

/-! ### Attributes -/

theorem steady_nativeName : nativeName.Steady := by
  refine .bind steady_identifier fun first => .iterate (fun name => ?_) nofun _
  refine .bind (steady_swallow (by decide)) fun b => ?_
  cases b with
  | true => exact .bind steady_identifier fun _ => .pure _
  | false => exact .pure _

theorem steady_nativeAttribute (r : Attribute.NativeRead) : (nativeAttribute r).Steady := by
  refine .bind steady_nativeName fun name => .bind (steady_looking (by decide)) fun b => .ite (fun _ => ?_) fun _ =>
    .bind (.pure _) fun _ => .pure _
  refine .bind (steady_balanced .round) fun inner => ?_
  split
  · exact .bind (.pure _) fun _ => .pure _
  · exact .throw_bind _

theorem steady_nativeGroup (r : Attribute.NativeRead) : (nativeGroup r).Steady := by
  refine .iterate (fun q => ?_) nofun r
  refine .bind (steady_swallow (by decide)) fun b => .ite (fun _ => .pure _) fun _ => ?_
  refine .bind (steady_nativeAttribute q) fun q => .bind (steady_swallow (by decide)) fun b => ?_
  exact .ite (fun _ => .pure _) fun _ => .bind (steady_expect (by decide)) fun _ => .pure _

theorem steady_nativeAttributes : nativeAttributes.Steady := by
  refine .bind (.iterate (fun r => ?_) nofun _) fun r => .ite (fun _ => .pure _) fun _ => .throw _
  refine .bind (steady_swallow (by decide)) fun b => .ite (fun _ => ?_) fun _ => .pure _
  exact .bind (steady_nativeGroup r) fun _ => .pure _

theorem steady_attributeList : attributeList.Steady := by
  refine .bind (steady_balanced .round) fun inside => ?_
  split
  · exact .throw _
  · split
    · exact .pure _
    · exact .throw _

/-! ### Texts up to a stop behind an opening -/

theorem ite_bind {α β : Type} {p : Prop} [Decidable p] (m n : Lexer α) (f : α → Lexer β) :
    (if p then m else n) >>= f = if p then m >>= f else n >>= f :=
  apply_ite (· >>= f) p m n

/-- Behind what `front` reads, `opener` does not come next or a stop stands behind it. -/
def closes {α : Type} (front : Lexer α) (opener stops s : List Char) : Bool :=
  match (do let _ ← front; swallow opener : Lexer Bool).answer s with
  | (.ok true, r) => r.any stops.contains
  | _ => true

theorem any_of_closes {α : Type} {front : Lexer α} {opener stops s r u : List Char} {a : α}
    (h : closes front opener stops s = true) (hfront : front.answer s = (.ok a, r))
    (hopener : (swallow opener).answer r = (.ok true, u)) : u.any stops.contains = true := by
  have hboth : (do let _ ← front; swallow opener : Lexer Bool).answer s = (.ok true, u) :=
    bind_answer_eq_ok.mpr ⟨a, r, hfront, hopener⟩
  unfold closes at h
  rw [hboth] at h
  exact h

end Lexer

/-! ### Classes -/

namespace ClassHead

/-- Reads a head up to its bases. -/
def readName : Lexer (Bool × Bag × List Char) := do
  let isStruct ← Lexer.swallowWord "struct".toList
  unless isStruct do
    unless ← Lexer.swallowWord "class".toList do
      Lexer.missing "class` or `struct"
  let native ← Lexer.nativeAttributes
  let name ← Lexer.identifier
  let _ ← Lexer.swallowWord "final".toList
  return (isStruct, native, name)

/-- Reads the bases of a class. -/
def readBases (p : Bool × Bag × List Char) : Lexer ClassHead := do
  let baseClass ←
    if ← Lexer.swallow [':'] then
      match firstBase (← Lexer.upTo ['\x7b']) with
      | .ok b => pure b
      | .error e => throw e
    else pure ""
  let _ ← Lexer.swallow ['\x7b']
  return ⟨p.1, p.2.1, String.ofList p.2.2, baseClass⟩

theorem read_eq : readName >>= readBases = read := by
  unfold readName readBases
  simp only [bind_assoc, pure_bind, Lexer.ite_bind]
  rfl

/-- The class has no bases, or its opening brace stands behind them. -/
def isClosed (s : List Char) : Bool := Lexer.closes readName [':'] ['\x7b'] s

theorem steady_readName : readName.Steady := by
  refine .bind (Lexer.steady_swallowWord (by decide)) fun isStruct => .ite (fun _ => ?_) fun _ => ?_
  · refine .bind Lexer.steady_nativeAttributes fun _ => .bind Lexer.steady_identifier fun _ => ?_
    exact .bind (Lexer.steady_swallowWord (by decide)) fun _ => .pure _
  · refine .bind (Lexer.steady_swallowWord (by decide)) fun isClass => .ite (fun _ => ?_) fun _ =>
      .bind (Lexer.steady_missing _) fun _ => ?_
    all_goals
      refine .bind Lexer.steady_nativeAttributes fun _ => .bind Lexer.steady_identifier fun _ => ?_
      exact .bind (Lexer.steady_swallowWord (by decide)) fun _ => .pure _

theorem steadyAt_read {s : List Char} (hclosed : isClosed s = true) : read.SteadyAt s := by
  rw [← read_eq]
  refine .bind (steady_readName s) fun p r hname => ?_
  have hbrace : (Lexer.swallow ['\x7b']).Steady := Lexer.steady_swallow (by decide)
  refine .bind (Lexer.steady_swallow (by decide) r) fun b u hcolon => .ite (fun hb => ?_) fun _ =>
    .bind (.pure _ _) fun _ _ _ => .bind (hbrace _) fun _ _ _ => .pure _ _
  subst hb
  refine .upTo_bind (Lexer.any_of_closes hclosed hname hcolon) fun bases => ?_
  split
  · exact .bind (.pure _) fun _ => .bind hbrace fun _ => .pure _
  · exact .throw_bind _

end ClassHead

/-! ### Enums -/

namespace EnumHead

/-- Reads a head up to its base type. -/
def readName : Lexer (Bag × List Char) := do
  Lexer.expect "enum".toList
  unless ← Lexer.swallowWord "class".toList do
    let _ ← Lexer.swallowWord "struct".toList
  let native ← Lexer.nativeAttributes
  let name ← Lexer.identifier
  return (native, name)

/-- Reads the base type of an enum. -/
def readBase (p : Bag × List Char) : Lexer EnumHead := do
  let baseType ←
    if ← Lexer.swallow [':'] then pure (trim (← Lexer.upTo ['\x7b'])) else pure []
  let opened ← Lexer.swallow ['\x7b']
  return ⟨p.1, String.ofList p.2, String.ofList baseType, opened⟩

theorem read_eq : readName >>= readBase = read := by
  unfold readName readBase
  simp only [bind_assoc, pure_bind, Lexer.ite_bind]
  rfl

/-- The enum has no base type, or its opening brace stands behind it. -/
def isClosed (s : List Char) : Bool := Lexer.closes readName [':'] ['\x7b'] s

theorem steady_readName : readName.Steady := by
  refine .bind (Lexer.steady_expect (by decide)) fun _ => ?_
  refine .bind (Lexer.steady_swallowWord (by decide)) fun _ => .ite (fun _ => ?_) fun _ =>
    .bind (Lexer.steady_swallowWord (by decide)) fun _ => ?_
  all_goals
    refine .bind Lexer.steady_nativeAttributes fun _ => .bind Lexer.steady_identifier fun _ => .pure _

theorem steadyAt_read {s : List Char} (hclosed : isClosed s = true) : read.SteadyAt s := by
  rw [← read_eq]
  refine .bind (steady_readName s) fun p r hname => ?_
  have hbrace : (Lexer.swallow ['\x7b']).Steady := Lexer.steady_swallow (by decide)
  refine .bind (Lexer.steady_swallow (by decide) r) fun b u hcolon => .ite (fun hb => ?_) fun _ =>
    .bind (.pure _ _) fun _ _ _ => .bind (hbrace _) fun _ _ _ => .pure _ _
  subst hb
  refine .upTo_bind (Lexer.any_of_closes hclosed hname hcolon) fun baseType => ?_
  exact .bind (.pure _) fun _ => .bind hbrace fun _ => .pure _

end EnumHead

/-! ### Fields -/

namespace FieldText

theorem steady_readFlags : readFlags.Steady := by
  refine .iterate (fun flags => ?_) nofun _
  refine .bind (Lexer.steady_swallowOneOf (by decide)) fun o => ?_
  cases o with
  | some fs => exact .pure _
  | none => exact .pure _

theorem cutDeclarator?_append {depth : Nat} {s before behind : List Char} {d : Char}
    (h : cutDeclarator? depth s = some (before, d, behind)) (x : List Char) :
    cutDeclarator? depth (s ++ x) = some (before, d, behind ++ x) := by
  induction s generalizing depth before with
  | nil => cases h
  | cons e s ih =>
      have honward : ∀ {depth}, (cutDeclarator? depth s).map (fun p => (e :: p.1, p.2)) = some (before, d, behind) →
          (cutDeclarator? depth (s ++ x)).map (fun p => (e :: p.1, p.2)) = some (before, d, behind ++ x) := by
        intro depth he
        obtain ⟨⟨b, e', v⟩, hcut, he⟩ := Option.map_eq_some_iff.mp he
        cases he
        rw [ih hcut]
        rfl
      rw [List.cons_append]
      unfold cutDeclarator? at h ⊢
      dsimp only at h ⊢
      split at h
      · rename_i hopener
        rw [if_pos hopener]
        exact honward h
      · rename_i hopener
        rw [if_neg hopener]
        split at h
        · rename_i hcloser
          rw [if_pos hcloser]
          exact honward h
        · rename_i hcloser
          rw [if_neg hcloser]
          split at h
          · rename_i hends
            cases h
            exact if_pos hends
          · rename_i hends
            exact (if_neg hends).trans (honward h)

theorem steady_readInitializer : readInitializer.Steady := by
  refine .bind_unless_spent Lexer.steadyUnlessSpent_expression (fun e => ?_) fun e b r => ?_
  · exact .ite (fun _ => .bind (Lexer.steady_missing _) fun _ => .bind (Lexer.steady_expect (by decide)) fun _ =>
      .pure _) fun _ => .bind (Lexer.steady_expect (by decide)) fun _ => .pure _
  · intro h
    split at h
    · cases h
    · cases h

theorem split_follows {c : TrailingComment} {s t : List Char} (ht : c.Follows s t)
    {a : List Char × List Char × Bool} (h : split s = .ok a) : split t = .ok a := by
  have hinitializer : ∀ {rest e : List Char}, readInitializer.eval rest = .ok e →
      readInitializer.eval (rest ++ c.chars) = .ok e :=
    fun he => (steady_readInitializer _).settled _ he c _ (.behind _)
  unfold split at h
  cases hcut : cutDeclarator? 0 s with
  | none =>
      rw [hcut] at h
      cases h
  | some p =>
      obtain ⟨declarator, d, rest⟩ := p
      have hs : s ≠ [] := by
        rintro rfl
        cases hcut
      rw [ht.eq_append hs]
      unfold split
      rw [cutDeclarator?_append hcut]
      rw [hcut] at h
      split at h
      · cases h
      · rename_i hp
        cases hp
        exact h
      · rename_i hp
        cases hp
        obtain ⟨e, he, h⟩ := Checked.bind_eq_ok.mp h
        exact Checked.bind_eq_ok.mpr ⟨e, hinitializer he, h⟩
      · rename_i hsemicolon hequals hp
        cases hp
        obtain ⟨e, he, h⟩ := Checked.bind_eq_ok.mp h
        split
        · rename_i hp
          cases hp
        · rename_i hp
          cases hp
          exact absurd rfl hsemicolon
        · rename_i hp
          cases hp
          exact absurd rfl hequals
        · rename_i hp
          cases hp
          exact Checked.bind_eq_ok.mpr ⟨e, hinitializer he, h⟩

/-- The last step of `read`: the declaration behind the attributes and leading words. -/
def readDeclaration (native : Bag) (flags : FlagSet FieldFlag) : Lexer FieldText := do
  match ofDeclaration native flags (← Lexer.rest) with
  | .ok t => return t
  | .error e => throw e

theorem eval_readDeclaration (native : Bag) (flags : FlagSet FieldFlag) (s : List Char) :
    (readDeclaration native flags).eval s = ofDeclaration native flags s := by
  have hrest : ∀ f : List Char → Lexer FieldText, (Lexer.rest >>= f).eval s = (f s).eval [] := fun _ => rfl
  unfold readDeclaration
  rw [hrest]
  cases ofDeclaration native flags s with
  | ok t => rfl
  | error e => rfl

/-- A field ends at its semicolon, so every comment stands behind it. -/
theorem settledAt_read (s : List Char) : read.SettledAt s := by
  refine .bind (Lexer.steady_nativeAttributes s) fun native r _ =>
    .bind (steady_readFlags r) fun flags u _ => ?_
  show (readDeclaration native flags).SettledAt u
  intro f hf c t ht
  rw [eval_readDeclaration] at hf ⊢
  obtain ⟨p, hp, hrest⟩ := Checked.bind_eq_ok.mp hf
  exact Checked.bind_eq_ok.mpr ⟨p, split_follows ht hp, hrest⟩

end FieldText

/-! ### Methods -/

namespace MethodText

theorem steady_readLeading : readLeading.Steady := by
  refine .bind Lexer.steady_nativeAttributes fun native => .iterate (fun m => ?_) nofun _
  refine .bind (Lexer.steady_swallowOneOf (by decide)) fun o => ?_
  cases o with
  | some f => exact .pure _
  | none =>
      refine .bind (Lexer.steady_looking (by decide)) fun b => .ite (fun _ => ?_) fun _ => .pure _
      exact .bind Lexer.steady_nativeAttributes fun _ => .pure _

theorem steady_readTrailing (flags : FlagSet MethodFlag) : (readTrailing flags).Steady := by
  refine .iterate (fun fs => ?_) nofun _
  refine .bind (Lexer.steady_swallowOneOf (by decide)) fun o => ?_
  cases o with
  | some gs =>
      refine .ite (fun _ => ?_) fun _ => .pure _
      refine .bind (Lexer.steady_looking (by decide)) fun b => .ite (fun _ => ?_) fun _ => .pure _
      exact .bind (Lexer.steady_balanced .round) fun _ => .pure _
  | none =>
      refine .bind (Lexer.steady_swallow (by decide)) fun b => .ite (fun _ => .pure _) fun _ => ?_
      exact .bind (Lexer.steady_swallow (by decide)) fun b => .ite (fun _ => .pure _) fun _ => .pure _

theorem steady_readAssigned (flags : FlagSet MethodFlag) : (readAssigned flags).Steady := by
  refine .bind (Lexer.steady_swallow (by decide)) fun b => .ite (fun _ => ?_) fun _ => .pure _
  exact .bind (Lexer.steady_swallowWord (by decide)) fun _ => steady_readTrailing _

/-- Reads a method up to its arrow. -/
def readSignature : Lexer (MethodText × List Char) := do
  let m ← readLeading
  if ← Lexer.looking ['~'] then throw .destructor
  let returnType ← Lexer.typeText
  if returnType = "operator".toList then throw .operatorOverload
  let name ← Lexer.identifier
  if name = "operator".toList then throw .operatorOverload
  let native := m.native.merge (← Lexer.nativeAttributes)
  unless ← Lexer.looking ['('] do
    throw (.methodWithoutParameters (String.ofList name))
  let parameters := trim (← Lexer.balanced .round)
  let flags ← readTrailing m.flags
  return ({
    native, flags, name := String.ofList name,
    rawParameters := String.ofList parameters, parameters := Parameter.ofList parameters }, returnType)

/-- Reads the arrow of a method and what follows it. -/
def readResult (p : MethodText × List Char) : Lexer MethodText := do
  let (flags, type) ← readArrow p.1.flags p.2
  let flags ← readAssigned flags
  return { p.1 with flags, returnType := String.ofList type }

theorem read_eq : readSignature >>= readResult = read := by
  unfold readSignature readResult
  simp only [bind_assoc, pure_bind, Lexer.ite_bind]
  rfl

/-- The method has no arrow, or what ends the type behind the arrow follows it. -/
def isClosed (s : List Char) : Bool := Lexer.closes readSignature "->".toList "\x7b;=".toList s

theorem steady_readSignature : readSignature.Steady := by
  refine .bind steady_readLeading fun m => ?_
  refine .bind (Lexer.steady_looking (by decide)) fun b => .ite (fun _ => .throw_bind _) fun _ => ?_
  -- Without a name behind it, a type does not begin a method.
  refine .bind_unless_spent Lexer.steadyUnlessSpent_typeText (fun type => ?_) fun type p r h => ?_
  · refine .ite (fun _ => .throw_bind _) fun _ => .bind Lexer.steady_identifier fun name => ?_
    refine .ite (fun _ => .throw_bind _) fun _ => .bind Lexer.steady_nativeAttributes fun native => ?_
    refine .bind (Lexer.steady_looking (by decide)) fun b => .ite (fun _ => ?_) fun _ => .throw_bind _
    refine .bind (Lexer.steady_balanced .round) fun parameters => ?_
    exact .bind (steady_readTrailing _) fun flags => .pure _
  · split at h
    · cases h
    · cases h

theorem steadyAt_read {s : List Char} (hclosed : isClosed s = true) : read.SteadyAt s := by
  rw [← read_eq]
  refine .bind (steady_readSignature s) fun p r hsignature => ?_
  refine .bind (m := readArrow p.1.flags p.2) ?_ fun q u _ => ?_
  · refine .bind (Lexer.steady_swallow (by decide) r) fun b u harrow => .ite (fun hb => ?_) fun _ => .pure _ _
    subst hb
    refine .upTo_bind (Lexer.any_of_closes hclosed hsignature harrow) fun type => ?_
    exact .bind (steady_readTrailing _) fun flags => .pure _
  · exact .bind (steady_readAssigned _ u) fun flags v _ => .pure _ _

end MethodText

end HeaderReflection
