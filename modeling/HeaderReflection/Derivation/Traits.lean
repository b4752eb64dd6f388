import HeaderReflection.Declaration.Type

/-! # Traits

What attributes say about a declaration whatever its kind: whether it is deprecated or not implemented,
whether its result should be used, and whether it and its members are documented.  Notes for its documentation
follow from these.

Annotating touches nothing that a header states (`Declaration.annotate_name`,
`Declaration.annotate_attributes`, `Declaration.annotate_line`). -/

namespace HeaderReflection

/-- What the attributes of a declaration say about it. -/
structure Traits where
  deprecated : Mark := .absent
  isUnimplemented : Bool := false
  documentMembers : Option Bool := none
  documented : Option Bool := none
  noDiscard : Mark := .absent
  deriving DecidableEq, Repr

/-- The traits of a bearer. -/
def Bearer.traits (b : Bearer) : Checked Traits := do
  return {
    deprecated := ← b.mark .deprecatedMark
    isUnimplemented := ← b.bool .unimplemented
    documentMembers := ← b.bool? .documentMembers
    documented := ← b.bool? .documented
    noDiscard := ← b.mark .noDiscard }

namespace Traits

/-- The note on a result that should be used. -/
def discardNote (kind : DeclarationKind) (reason : String) : DocNote :=
  ⟨"No Discard",
    Text.trimmed ("The result of this " ++ kind.noun ++ " should not be discarded. " ++ reason),
    false, ""⟩

/-- The note on a deprecated declaration. -/
def deprecationNote (kind : DeclarationKind) (reason : String) : DocNote :=
  .warning "Deprecated"
    (if reason.isEmpty then "This " ++ kind.noun ++ " is deprecated; no reason was given" else reason)

/-- The note on a declaration without an implementation. -/
def unimplementedNote (kind : DeclarationKind) : DocNote :=
  ⟨"Unimplemented", "This " ++ kind.noun ++ "'s functionality is unimplemented", true,
    "circle-slash"⟩

/-- The notes on a declaration. -/
def notes (t : Traits) (kind : DeclarationKind) : List DocNote :=
  (if t.noDiscard.isPresent then [discardNote kind (t.noDiscard.reason?.getD "")] else []) ++
    (if t.deprecated.isPresent then [deprecationNote kind (t.deprecated.reason?.getD "")] else []) ++
    (if t.isUnimplemented then [unimplementedNote kind] else [])

end Traits

namespace Declaration

/-- The declaration with what its traits say about it. -/
def annotate (d : Declaration) (kind : DeclarationKind) (t : Traits) : Declaration :=
  { d with
    entityFlags :=
      d.entityFlags.insertIf t.deprecated.isPresent .deprecated
        |>.insertIf t.isUnimplemented .unimplemented
    deprecation := if t.deprecated.isPresent then t.deprecated.reason? else d.deprecation
    documentMembers := t.documentMembers.getD d.documentMembers
    forceDocument := t.documented <|> d.forceDocument
    docNotes := d.docNotes ++ t.notes kind }

@[simp] theorem annotate_name (d : Declaration) (k : DeclarationKind) (t : Traits) :
    (d.annotate k t).name = d.name := rfl

@[simp] theorem annotate_attributes (d : Declaration) (k : DeclarationKind) (t : Traits) :
    (d.annotate k t).attributes = d.attributes := rfl

@[simp] theorem annotate_line (d : Declaration) (k : DeclarationKind) (t : Traits) :
    (d.annotate k t).line = d.line := rfl

end Declaration

end HeaderReflection
