import HeaderReflection.Declaration.Accessor
import HeaderReflection.Source.Marker

/-! # Readers of headers

A reader holds the markers that it answers to, fixed when it is made, and the settings, which may change
between headers, as do the enums that are known from headers read before.

Every declaration that it makes goes through `Reader.checkedBearer`, so that no attribute of a declaration is
read before the whole bag is valid.  A declaration is made at a site (`MarkerSite`): the path and the line of
its marker, the comments above it, and its attribute list. -/

namespace HeaderReflection

/-! ### Readers and sites -/

/-- A reader of headers. -/
structure Reader where
  settings : Settings
  markers : MarkerTable
  /-- Which names are those of enums in the headers read before. -/
  isEnum : String → Bool := Bearer.noEnum

/-- What stands in front of a declaration: a marker with its attribute list, and the comments above
it. -/
structure MarkerSite where
  path : SourcePath
  /-- The line of the marker. -/
  line : Nat
  comments : List String := []
  attributes : Bag := []
  deriving DecidableEq, Repr

namespace MarkerSite

/-- The declaration of the given name at a site, identified by its line. -/
def declaration (site : MarkerSite) (name : String) (attributes : Bag) : Declaration where
  name := name
  displayName := name
  comments := site.comments
  attributes := attributes
  line := site.line
  uid := Uid.compute site.path site.line

end MarkerSite

namespace Reader

/-- A reader with the markers that the settings name. -/
def ofSettings (s : Settings) : Reader := { settings := s, markers := MarkerTable.ofSettings s }

/-- The present name of a kind of marker. -/
def markerName (r : Reader) (k : MarkerKind) : String := r.settings.markerName k

/-- The default bags may not set what only native attributes set. -/
def checkDefaults (r : Reader) : Except Cause Unit :=
  r.settings.defaults.toList.forM Catalog.standard.rejectUnsettable

/-- The bearer of a bag at a site, once the bag is valid. -/
def checkedBearer (r : Reader) (site : MarkerSite) (kind : DeclarationKind) (attributes : Bag) :
    Checked Bearer := do
  let b : Bearer := ⟨kind, attributes, some site.path, site.line, r.isEnum⟩
  b.validate b.isEnum Bearer.deferred
  return b

end Reader

end HeaderReflection
