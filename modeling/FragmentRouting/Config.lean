import FragmentRouting.Failure
import FragmentRouting.Query.Delimiter

/-!
# Configuration
-/

namespace FragmentRouting

/-- How routes extract parameters and how queries hold lists. -/
structure Config where
  /-- Separates the items of a list in a query. -/
  delimiter : Delimiter := some "|"
  /-- Handlers get one mapping from names to values instead of a value for each name. -/
  named : Bool := false
  /-- Splats stay percent-encoded. -/
  encodedSplats : Bool := false
  faultless : delimiter.fault? = none := by rfl

namespace Config

/-- Lists are joined by a bar, and handlers get a decoded value for each name. -/
def standard : Config := {}

/-- The configuration with the given fields, if its delimiter may be used. -/
def ofFields (delimiter : Delimiter) (named encodedSplats : Bool) : Except Failure Config :=
  match h : delimiter.fault? with
  | none => .ok ⟨delimiter, named, encodedSplats, h⟩
  | some fault => .error fault

end Config

end FragmentRouting
