import HeaderReflection.Proofs.Attribute.NativeText
import HeaderReflection.Proofs.Checked
import HeaderReflection.Source.ClassHead
import HeaderReflection.Source.EnumText
import HeaderReflection.Source.FieldText
import HeaderReflection.Source.MethodText

/-! # Native attributes in declarations

Whatever kind of declaration a text is read as, the native attributes with reserved names stand there for
native spellings in the text itself (`Attribute.NativeBag`).

* Each reader of declarations begins with native attributes or takes something in front of them.  What is
  taken in front does not matter, because spellings stay where they are in a longer text
  (`Lexer.Finds.behind`).
* What is read behind the native attributes does not touch their bag, so it is enough that the answer has the
  bag that was read (`Lexer.Finds.native_bind`).

Methods may have several groups between the words in front of their return type.  The bags of these are merged
as they are read, and a bag that is merged from such bags is one again (`Attribute.NativeBag.merge`). -/

namespace HeaderReflection

open Attribute Lexer

/-! ### Finding native attributes -/

theorem Attribute.NativeBag.merge {s : List Char} {bag other : Bag} (h : NativeBag s bag)
    (hother : NativeBag s other) : NativeBag s (bag.merge other) := by
  intro k hk
  rcases Keyed.mem_keys_merge.mp hk with hk | hk
  · exact h k hk
  · exact hother k hk

namespace Lexer

variable {α β : Type} {native : β → Bag}

/-- What is taken in front of the native attributes does not matter. -/
theorem Finds.behind {m : Lexer α} {P : List Char → α → Prop} {f : α → Lexer β} (hm : m.Takes P)
    (hf : ∀ t a, P t a → (f a).Finds fun s b => NativeBag s (native b)) :
    (m >>= f).Finds fun s b => NativeBag s (native b) := by
  refine .bind hm fun t a ha s b r h => ?_
  exact (hf t a ha s b r h).mono (List.suffix_append t s).isInfix

/-- A reader answers the native attributes that it begins with. -/
theorem Finds.native_bind {f : Bag → Lexer β} (hf : ∀ bag, (f bag).Yields fun b => native b = bag) :
    (nativeAttributes >>= f).Finds fun s b => NativeBag s (native b) := by
  refine .bind takes_nativeAttributes fun t bag hbag => .of_yields (hf bag) fun s b hb => ?_
  rw [hb]
  exact hbag.mono (List.prefix_append t s).isInfix

end Lexer

/-! ### Declarations -/

theorem ClassHead.read_finds : ClassHead.read.Finds fun s head => NativeBag s head.native := by
  refine .behind (takes_swallowWord _) fun _ isStruct _ => .ite (fun _ => .native_bind fun bag => ?_) fun _ =>
    .behind (takes_swallowWord _) fun _ _ _ => .ite (fun _ => .native_bind fun bag => ?_) fun _ =>
      .behind (takes_missing (P := fun _ _ => False) _) fun _ _ h => h.elim
  all_goals
    refine .bind (.any _) fun name _ => .bind (.any _) fun _ _ => .bind (.any _) fun _ _ =>
      .ite (fun _ => .bind (.any _) fun bases _ => ?_) fun _ => .bind (.any _) fun _ _ =>
        .bind (.any _) fun _ _ => .pure rfl
    split
    · exact .bind (.any _) fun _ _ => .bind (.any _) fun _ _ => .pure rfl
    · exact .throw_bind _

theorem FieldText.read_finds : FieldText.read.Finds fun s f => NativeBag s f.native := by
  refine .native_bind fun bag => .bind (.any _) fun flags _ => .bind (.any _) fun rest _ => ?_
  split
  · rename_i f hf
    refine .pure ?_
    obtain ⟨p, _, hf⟩ := Checked.bind_eq_ok.mp hf
    obtain ⟨q, _, hf⟩ := Checked.bind_eq_ok.mp hf
    obtain rfl := Checked.pure_eq_ok.mp hf
    rfl
  · exact .throw _

theorem MethodText.takes_readLeading : MethodText.readLeading.Takes fun t m => NativeBag t m.native := by
  refine .bind takes_nativeAttributes fun t bag hbag => ?_
  refine .iterate (R := fun u m => NativeBag (t ++ u) m.native) ?_ (by simpa using hbag)
  intro u m hm
  refine .bind (takes_swallowOneOf _) fun v o _ => ?_
  cases o with
  | some f =>
      refine .pure ⟨?_, fun _ => hm⟩
      exact hm.mono ⟨[], v, by simp⟩
  | none =>
      refine .bind (takes_looking _) fun w _ _ => .ite (fun _ => ?_) fun _ => ?_
      · refine .bind takes_nativeAttributes fun x more hmore => .pure ⟨?_, fun h => ?_⟩
        · exact (hm.mono ⟨[], v ++ (w ++ x), by simp⟩).merge (hmore.mono ⟨t ++ u ++ v ++ w, [], by simp⟩)
        · obtain rfl : x = [] := by simp_all
          exact hm.merge (hmore.mono (List.nil_infix))
      · exact .pure (hm.mono ⟨[], v ++ w, by simp⟩)

theorem MethodText.read_finds : MethodText.read.Finds fun s m => NativeBag s m.native := by
  refine .bind takes_readLeading fun t m hm => ?_
  refine .bind (takes_looking _) fun u _ _ => .ite (fun _ => .throw_bind _) fun _ => ?_
  refine .bind takes_typeText fun v type _ => .ite (fun _ => .throw_bind _) fun _ => ?_
  refine .bind takes_identifier fun w name _ => .ite (fun _ => .throw_bind _) fun _ => ?_
  refine .bind takes_nativeAttributes fun x bag hbag => ?_
  refine .of_yields (Y := fun n => n.native = m.native.merge bag) ?_ fun s n hn => ?_
  · refine .bind (.any _) fun _ _ => .ite (fun _ => ?_) fun _ => .throw_bind _
    refine .bind (.any _) fun _ _ => .bind (.any _) fun _ _ => .bind (.any _) fun p _ => ?_
    exact .bind (.any _) fun _ _ => .pure rfl
  · rw [hn]
    exact (hm.mono ⟨[], _, rfl⟩).merge (hbag.mono ⟨t ++ (u ++ (v ++ w)), s, by simp⟩)

theorem EnumHead.read_finds : EnumHead.read.Finds fun s head => NativeBag s head.native := by
  refine .behind (takes_expect _) fun _ _ _ => .behind (takes_swallowWord _) fun _ _ _ => ?_
  refine .ite (fun _ => .native_bind fun bag => ?_) fun _ =>
    .behind (takes_swallowWord _) fun _ _ _ => .native_bind fun bag => ?_
  all_goals
    refine .bind (.any _) fun _ _ => .bind (.any _) fun _ _ => .ite (fun _ => ?_) fun _ => ?_
    · exact .bind (.any _) fun _ _ => .bind (.any _) fun _ _ => .bind (.any _) fun _ _ => .pure rfl
    · exact .bind (.any _) fun _ _ => .bind (.any _) fun _ _ => .pure rfl

theorem EnumeratorText.read_finds : EnumeratorText.read.Finds fun s x => NativeBag s x.native := by
  refine .behind takes_identifier fun _ name _ => .native_bind fun bag => ?_
  refine .bind (.any _) fun value _ => .bind (.any _) fun _ _ => .bind (.any _) fun rest _ => ?_
  dsimp only
  split
  · exact .pure rfl
  · exact .pure rfl
  · exact .pure rfl
  · exact .throw_bind _

end HeaderReflection
