import HeaderReflection.Proofs.Source.Declared
import HeaderReflection.Proofs.Source.Made

/-! # Where members come from

Every field and every method of a header that was read is what the text at its line declares
(`Reader.fieldOf_of_mem_fields`, `Reader.methodOf_of_mem_methods`): there are a marker, a class and an access
from which the reader makes just this member.

The class is the one that the member joined, as it was at that time, with the members above.  That a member is
made from it is an invariant of reading a class (`Reader.declaresMembers_invariant`), since members are only
ever added.  Whoever knows what the reader makes of the text of a member thereby knows it of every member of a
header, without following the run over the lines. -/

namespace HeaderReflection.Reader

open Checked

/-! ### Members and their texts -/

variable {r : Reader} {path : SourcePath} {lines : List String}

/-- The text at the line of the field declares it for some class. -/
def DeclaresField (r : Reader) (path : SourcePath) (lines : List String) (f : Field) : Prop :=
  ∃ site owner access own, site.Declares r path lines own ∧ site.line = f.line ∧
    r.fieldOf site owner access own = .ok f

/-- The text at the line of the method declares it for some class. -/
def DeclaresMethod (r : Reader) (path : SourcePath) (lines : List String) (m : Method) : Prop :=
  ∃ site owner access own, site.Declares r path lines own ∧ site.line = m.line ∧
    r.methodOf site owner access own = .ok m

theorem declaresMembers_invariant : r.ClassInvariant path lines fun c =>
    (∀ f ∈ c.fields, r.DeclaresField path lines f) ∧ ∀ m ∈ c.methods, r.DeclaresMethod path lines m where
  declare := by
    intro site text c _ hc
    obtain ⟨_, -, hc⟩ := classOf_makes site text c hc
    rw [hc.fields, hc.methods]
    exact ⟨List.forall_mem_nil _, List.forall_mem_nil _⟩
  body := fun _ hc => hc
  field := by
    intro site access text c f hsite hc hf
    obtain ⟨_, -, hmade⟩ := fieldOf_makes site c access text f hf
    refine ⟨List.forall_mem_append.mpr ⟨hc.1, List.forall_mem_singleton.mpr ?_⟩, hc.2⟩
    exact ⟨site, c, access, text, hsite, hmade.line.symm, hf⟩
  method := by
    intro site access text c d m hsite hc hm hd
    obtain ⟨ps, rfl⟩ := claimProperties_yields c m d hd
    obtain ⟨_, -, hmade⟩ := methodOf_makes site c access text m hm
    refine ⟨hc.1, List.forall_mem_append.mpr ⟨hc.2, List.forall_mem_singleton.mpr ?_⟩⟩
    exact ⟨site, c, access, text, hsite, hmade.line.symm, hm⟩

variable {text : String} {h : Header} {c : Class}

theorem fieldOf_of_mem_fields (hr : r.read path text = .ok h) (hc : c ∈ h.classes) {f : Field} (hf : f ∈ c.fields) :
    r.DeclaresField path (Text.lines text) f :=
  (read_classes declaresMembers_invariant hr c hc).1 f hf

theorem methodOf_of_mem_methods (hr : r.read path text = .ok h) (hc : c ∈ h.classes) {m : Method}
    (hm : m ∈ c.methods) : r.DeclaresMethod path (Text.lines text) m :=
  (read_classes declaresMembers_invariant hr c hc).2 m hm

end HeaderReflection.Reader
