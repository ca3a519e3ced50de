import FragmentRouting.Proofs.Extraction.Positional
import FragmentRouting.Proofs.Query.Shape

/-!
# Named arguments

A pattern that collects its names in one block gives the values that it gives without, by name:

* `Overlays`: what a block holds that names lie over;
* `argumentsOf_named`: naming the arguments updates the block of the query with them;
* `argumentsFor_named`: the named arguments of every fragment, told by the positional ones.
-/

namespace FragmentRouting

open Entries (item? update)

theorem Query.nodup_decode (text : String) (delimiter : Delimiter) :
    ((Query.decode text delimiter).map Prod.fst).Nodup := by
  have shaped : (Query.decode text delimiter).Shaped True :=
    Query.shaped_foldl (fun p => Query.path_ne_nil_of_mem_pairs) (.inl rfl)
  rcases shaped with empty | shaped
  · rw [empty]
    exact List.nodup_nil
  · cases shaped with
    | block _ distinct _ => exact distinct

namespace Pattern

open Template (Slot Captures)

/-- A block in which named values lie over those of a query. -/
structure Overlays (named : List (String × Parameter)) (query b : Block) : Prop where
  /-- A name has the last of its values, and what has none is as in the query. -/
  items : ∀ name, item? name b =
    ((named.filter (·.1 = name)).getLast?.map Prod.snd).or (item? name query)
  /-- The names of the query come first, and the others by their first value. -/
  order : b.map Prod.fst = query.map Prod.fst ++
    ((named.map Prod.fst).filter (· ∉ query.map Prod.fst)).eraseDups
  distinct : (b.map Prod.fst).Nodup

theorem overlays_update (named : List (String × Parameter)) {query : Block}
    (distinct : (query.map Prod.fst).Nodup) : Overlays named query (update query named) where
  items name := Entries.item?_update name query named
  order := Entries.keys_update query named
  distinct := Entries.nodup_update distinct named

/-- The block of the query, or an empty one. -/
def queryOf (p : Pattern) (captures : Captures) : Block :=
  (captures.query.map p.queryBlock).getD []

theorem argumentsOf_named {p : Pattern} (named : p.named = true) (captures : Captures) :
    p.argumentsOf captures = [some (.block (update (p.queryOf captures)
      (taken p.names ((p.slotTexts captures.slots).map (Option.map .text)))))] := by
  simp only [argumentsOf, named, if_true, namedBlock_eq_taken, queryOf]

/-- Every match of a pattern has a capture for each of its names. -/
theorem length_slots_captures? {p : Pattern} {fragment : String} {captures : Captures}
    (h : p.captures? fragment = some captures) : captures.slots.length = p.names.length := by
  obtain ⟨items, hitems, hmatch⟩ := Option.bind_eq_some_iff.mp h
  have tokens : p.namedTokens = Template.namedMarks p.template.toList :=
    Template.namedTokens_ofTemplate p.template none .standard
  rw [Template.length_slots_match? hmatch,
    Template.slotsOf_items (p.compiled.symm.trans hitems), Template.length_names, tokens]

theorem length_slotTexts (p : Pattern) (slots : List Slot) :
    (p.slotTexts slots).length = slots.length := by
  simp [slotTexts]

/-- Whether the arguments are collected by name or not, the same fragments are refused. Those by
name are one block, which the others determine: the values of the names, of which the last counts,
over what is in the query, with the names of the query in front. -/
theorem argumentsFor_named (p : Pattern) (fragment : String) :
    let positional := ({ p with named := false } : Pattern).argumentsFor fragment
    let named := ({ p with named := true } : Pattern).argumentsFor fragment
    (positional = .error (.mismatch p.template fragment) ∧
        named = .error (.mismatch p.template fragment)) ∨
      ∃ (values : Arguments) (query : Option Block) (b : Block),
        positional = .ok (values ++ (query.map fun q => some (.block q)).toList) ∧
          values.length = p.names.length ∧ named = .ok [some (.block b)] ∧
          Overlays (taken p.names values) (query.getD []) b := by
  intro positional named
  cases h : p.captures? fragment with
  | none =>
    left
    have same (on : Bool) : ({ p with named := on } : Pattern).captures? fragment = none := h
    simp only [positional, named, argumentsFor, same, and_self]
  | some captures =>
    right
    have same (on : Bool) :
        ({ p with named := on } : Pattern).captures? fragment = some captures := h
    have distinct : ((p.queryOf captures).map Prod.fst).Nodup := by
      unfold queryOf
      cases captures.query with
      | none => exact List.nodup_nil
      | some query => exact Query.nodup_decode _ _
    refine ⟨(p.slotTexts captures.slots).map (Option.map Parameter.text),
      captures.query.map p.queryBlock, _, ?_, ?_, ?_, overlays_update _ distinct⟩
    · simp only [positional, argumentsFor, same, Option.map_map]
      exact congrArg Except.ok (@argumentsOf_positional { p with named := false } rfl captures)
    · rw [List.length_map, length_slotTexts, length_slots_captures? h]
    · simp only [named, argumentsFor, same]
      exact congrArg Except.ok (@argumentsOf_named { p with named := true } rfl captures)

end Pattern

end FragmentRouting
