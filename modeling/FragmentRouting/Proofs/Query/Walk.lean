import FragmentRouting.Query.Block
import FragmentRouting.Proofs.Entries

/-!
# Walking along a path

What stands at a path of a block, and what reading one more pair does to it:

* `Block.at?`: the parameter that the names of a path lead to, through nested blocks;
* `Related`: one of two paths is a prefix of the other;
* `at?_addPair_self`, `at?_addPair_below`, `at?_addPair_above`, `at?_addPair_unrelated`: a pair acts
  on its own path, makes blocks of the paths above, cuts off the paths below and leaves every other
  path alone.
-/

namespace FragmentRouting

/-- One of the paths is a prefix of the other. -/
def Query.Related (path other : List String) : Prop :=
  path <+: other ∨ other <+: path

instance (path other : List String) : Decidable (Query.Related path other) :=
  inferInstanceAs (Decidable (path <+: other ∨ other <+: path))

/-- Two related paths are the same, or one of them goes on behind the other. -/
theorem Query.Related.cases {path other : List String} (h : Related path other) :
    path = other ∨ (∃ rest, rest ≠ [] ∧ other = path ++ rest) ∨
      ∃ rest, rest ≠ [] ∧ path = other ++ rest := by
  rcases h with ⟨rest, rfl⟩ | ⟨rest, rfl⟩ <;> rcases rest with _ | ⟨name, rest⟩
  · exact .inl (List.append_nil path).symm
  · exact .inr (.inl ⟨_, List.cons_ne_nil _ _, rfl⟩)
  · exact .inl (List.append_nil other)
  · exact .inr (.inr ⟨_, List.cons_ne_nil _ _, rfl⟩)

theorem Query.Related.symm {path other : List String} (h : Related path other) :
    Related other path :=
  Or.symm h

/-- Two of two related paths are related, be they different or the same. -/
theorem Query.Related.of_mem {path other first second : List String} (h : Related path other)
    (hfirst : first = path ∨ first = other) (hsecond : second = path ∨ second = other) :
    Related first second := by
  rcases hfirst with rfl | rfl <;> rcases hsecond with rfl | rfl
  · exact .inl List.prefix_rfl
  · exact h
  · exact h.symm
  · exact .inl List.prefix_rfl

/-- Unrelated paths that begin with the same name part later. -/
theorem Query.apart_tails {name : String} {path other : List String}
    (apart : ¬ Related (name :: path) (name :: other)) :
    path ≠ [] ∧ other ≠ [] ∧ ¬ Related path other := by
  have tails : ¬ Related path other := fun related => apart <| by
    simpa only [Related, List.cons_prefix_cons, true_and] using related
  refine ⟨?_, ?_, tails⟩
  · rintro rfl
    exact tails (.inl List.nil_prefix)
  · rintro rfl
    exact tails (.inr List.nil_prefix)

/-- The parameter that a path leads to. Names lead on inside blocks only. -/
def Parameter.at? : List String → Parameter → Option Parameter
  | [], p => some p
  | name :: path, .block entries => (Entries.item? name entries).bind (Parameter.at? path)
  | _ :: _, _ => none

namespace Block

variable {change : Option Parameter → Parameter}

/-- The parameter that a path leads to in a block. -/
def at? (path : List String) (b : Block) : Option Parameter :=
  Parameter.at? path (.block b)

/-- The block that an item is. Text, lists and nothing at all count as an empty block. -/
def ofItem : Option Parameter → Block
  | some (.block entries) => entries
  | _ => []

/-- The block at a path. -/
def within (path : List String) (b : Block) : Block :=
  ofItem (at? path b)

theorem inner_eq_ofItem (name : String) (b : Block) :
    inner name b = ofItem (Entries.item? name b) := rfl

theorem at?_cons (name : String) (path : List String) (b : Block) :
    at? (name :: path) b = (Entries.item? name b).bind (Parameter.at? path) := rfl

theorem at?_singleton (name : String) (b : Block) : at? [name] b = Entries.item? name b := by
  rw [at?_cons]
  cases Entries.item? name b <;> rfl

theorem at?_append (first rest : List String) (b : Block) :
    at? (first ++ rest) b = (at? first b).bind (Parameter.at? rest) := by
  unfold at?
  generalize Parameter.block b = p
  induction first generalizing p with
  | nil => rfl
  | cons name first ih =>
    cases p with
    | text _ | list _ => rfl
    | block entries =>
      simp only [List.cons_append, Parameter.at?]
      cases Entries.item? name entries with
      | none => rfl
      | some item => exact ih item

theorem at?_inner {path : List String} (h : path ≠ []) (name : String) (b : Block) :
    at? path (inner name b) = at? (name :: path) b := by
  obtain ⟨next, path, rfl⟩ := List.exists_cons_of_ne_nil h
  rw [at?_cons name, inner]
  cases Entries.item? name b with
  | none => rfl
  | some p => cases p <;> rfl

theorem within_inner (name : String) (path : List String) (b : Block) :
    within path (inner name b) = within (name :: path) b := by
  cases path with
  | nil =>
    rw [within, within, at?_singleton, ← inner_eq_ofItem]
    rfl
  | cons next path => rw [within, within, at?_inner (List.cons_ne_nil _ _)]

theorem update_cons {path : List String} (h : path ≠ []) (name : String) (b : Block) :
    update change (name :: path) b =
      Entries.put name (.block (update change path (inner name b))) b := by
  obtain ⟨next, path, rfl⟩ := List.exists_cons_of_ne_nil h
  rfl

theorem update_ne_nil {path : List String} (h : path ≠ []) (b : Block) :
    update change path b ≠ [] := by
  obtain ⟨name, path, rfl⟩ := List.exists_cons_of_ne_nil h
  cases path <;> exact Entries.put_ne_nil _ _ _

/-- Behind the first name of a path to change, the walk goes on in the changed inner block. -/
theorem at?_update_cons {path : List String} (h : path ≠ []) (name : String)
    (rest : List String) (b : Block) :
    at? (name :: rest) (update change (name :: path) b) =
      at? rest (update change path (inner name b)) := by
  rw [update_cons h, at?_cons, Entries.item?_put_self]
  rfl

theorem at?_update_self {path : List String} (h : path ≠ []) (b : Block) :
    at? path (update change path b) = some (change (at? path b)) := by
  induction path generalizing b with
  | nil => exact absurd rfl h
  | cons name path ih =>
    by_cases last : path = []
    · subst last
      rw [update, at?_singleton, at?_singleton, Entries.item?_put_self]
    · rw [at?_update_cons last, ih last, at?_inner last]

theorem at?_update_below {rest : List String} (h : rest ≠ []) (path : List String) (b : Block) :
    at? path (update change (path ++ rest) b) =
      some (.block (update change rest (within path b))) := by
  induction path generalizing b with
  | nil => rfl
  | cons name path ih =>
    have more : path ++ rest ≠ [] := List.append_ne_nil_of_right_ne_nil path h
    rw [List.cons_append, at?_update_cons more, ih, within_inner]

theorem at?_update_unrelated {path other : List String} (h : ¬ Query.Related path other)
    (b : Block) : at? path (update change other b) = at? path b := by
  induction other generalizing path b with
  | nil => exact absurd (.inr List.nil_prefix) h
  | cons name other ih =>
    cases path with
    | nil => exact absurd (.inl List.nil_prefix) h
    | cons first path =>
      by_cases same : first = name
      · subst same
        obtain ⟨hpath, hother, apart⟩ := Query.apart_tails h
        rw [at?_update_cons hother, ih apart, at?_inner hpath]
      · rw [at?_cons, at?_cons]
        cases other with
        | nil => rw [update, Entries.item?_put_of_ne same]
        | cons next other =>
          rw [update_cons (List.cons_ne_nil _ _), Entries.item?_put_of_ne same]

end Block

namespace Query

open Block (at? within)

variable {delimiter : Delimiter} {p : Pair}

theorem absorb_ne_block (raw : String) (current : Option Parameter) (inner : Block) :
    absorb delimiter raw current ≠ .block inner := by
  unfold absorb
  cases delimiter.items? raw with
  | some items => exact Parameter.noConfusion
  | none =>
    rcases current with _ | s | items | entries
    · exact Parameter.noConfusion
    · dsimp only
      split <;> exact Parameter.noConfusion
    · exact Parameter.noConfusion
    · exact Parameter.noConfusion

theorem path_ne_nil_of_mem_pairs {text : String} (h : p ∈ pairs text) : p.path ≠ [] := by
  obtain ⟨chars, -, rfl⟩ := List.mem_map.mp h
  simp [Pair.ofText, pathOf]

theorem at?_addPair_self (h : p.path ≠ []) (b : Block) :
    at? p.path (addPair delimiter b p) = some (absorb delimiter p.raw (at? p.path b)) :=
  Block.at?_update_self h b

/-- A pair below a path makes a block of what stands there. -/
theorem at?_addPair_below {path rest : List String} (hrest : rest ≠ [])
    (h : p.path = path ++ rest) (b : Block) :
    at? path (addPair delimiter b p) =
      some (.block (Block.update (absorb delimiter p.raw) rest (within path b))) := by
  rw [addPair, h]
  exact Block.at?_update_below hrest path b

/-- A pair above a path leaves no block there to walk through. -/
theorem at?_addPair_above {path rest : List String} (hp : p.path ≠ []) (hrest : rest ≠ [])
    (h : path = p.path ++ rest) (b : Block) : at? path (addPair delimiter b p) = none := by
  obtain ⟨name, rest, rfl⟩ := List.exists_cons_of_ne_nil hrest
  rw [h, Block.at?_append, at?_addPair_self hp, Option.bind_some]
  cases habsorb : absorb delimiter p.raw (at? p.path b) with
  | text _ | list _ => rfl
  | block inner => exact absurd habsorb (absorb_ne_block _ _ _)

theorem at?_addPair_unrelated {path : List String} (h : ¬ Related path p.path) (b : Block) :
    at? path (addPair delimiter b p) = at? path b :=
  Block.at?_update_unrelated h b

end Query

end FragmentRouting
