import FragmentRouting.Extraction
import FragmentRouting.Proofs.Entries

/-!
# Arguments with a query

A query adds its block to the arguments of a path: as one more argument, or below the names of the
path.

* `taken`: the names of the arguments that have a value, with their values;
* `namedBlock_eq_taken`: naming captures over a block sets them over it one after the other;
* `Joins`: what one more block makes of the arguments of a path;
* `argumentsOf_joins`: what a query makes of the arguments of the same captures.
-/

namespace FragmentRouting.Pattern

open Template (Slot)
open Entries

/-- The names whose argument has a value, in order, each with this value. A name can occur more
than once. -/
def taken (names : List String) (values : Arguments) : List (String × Parameter) :=
  (names.zip values).filterMap fun slot => slot.2.map (slot.1, ·)

/-- The captures are set over the query by name, one after the other. -/
theorem namedBlock_eq_taken (names : List String) (texts : List Slot) (query : Block) :
    namedBlock names texts query = update query (taken names (texts.map (Option.map .text))) := by
  rw [taken, update, List.zip_map_right, List.filterMap_map, List.foldl_filterMap, namedBlock]
  congr 1
  funext b slot
  obtain ⟨name, text⟩ := slot
  cases text <;> rfl

/-- Naming captures over a block updates it with the captures by their names. -/
theorem namedBlock_eq_update (names : List String) (texts : List Slot) (block : Block) :
    namedBlock names texts block = update block (namedBlock names texts []) := by
  have distinct : (([] : Block).map Prod.fst).Nodup := List.nodup_nil
  rw [namedBlock_eq_taken, namedBlock_eq_taken names texts [], ← update_update _ _ distinct]
  rfl

/-- What one more block makes of the arguments of a path: it is the last argument, or the names
of the path are set over it. -/
def Joins (p : Pattern) (b : Block) (old new : Arguments) : Prop :=
  if p.named then
    ∃ names, old = [some (.block names)] ∧ new = [some (.block (update b names))]
  else new = old ++ [some (.block b)]

/-- A query joins its block to the arguments that the same captures give without it. -/
theorem argumentsOf_joins (p : Pattern) (slots : List Slot) (query : String) :
    p.Joins (p.queryBlock query) (p.argumentsOf ⟨slots, none⟩)
      (p.argumentsOf ⟨slots, some query⟩) := by
  unfold Joins argumentsOf
  by_cases named : p.named = true
  · simp only [named, if_true]
    exact ⟨_, rfl, by rw [namedBlock_eq_update]; rfl⟩
  · simp [named]

end FragmentRouting.Pattern
