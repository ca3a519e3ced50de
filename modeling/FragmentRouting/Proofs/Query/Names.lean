import FragmentRouting.Proofs.Query.Walk
import FragmentRouting.Proofs.Query.Markers

/-!
# Names of a read query

Names are found in the blocks of a query at any depth, also in a block that a list begins with:

* `HasName`: the names of a parameter and of all that is inside it;
* `HasName.mem_path`: they stand on the paths of the pairs, as every pair brings the names of its
  path at most;
* `hasName_of_at?`: and the names on the way to something are there;
* `decode_marked`: a name has a list marker in it if the key of its pair has one around others, and
  only then.
-/

namespace FragmentRouting

/-- A name of a block or of anything inside the parameter. -/
inductive Parameter.HasName (name : String) : Parameter → Prop
  | here {entries : Block} {p : Parameter} (h : (name, p) ∈ entries) : HasName name (.block entries)
  | entry {entries : Block} {key : String} {p : Parameter} (h : (key, p) ∈ entries)
      (hp : HasName name p) : HasName name (.block entries)
  | item {items : List Parameter} {p : Parameter} (h : p ∈ items) (hp : HasName name p) :
      HasName name (.list items)

namespace Query

open Entries (put mem_put mem_of_item?)
open Parameter (HasName)

variable {name : String} {delimiter : Delimiter}

/-! ## Where names come from -/

theorem not_hasName_text {s : String} : ¬ HasName name (.text s) := nofun

theorem not_hasName_nil : ¬ HasName name (.block []) := by
  rintro (h | ⟨h, -⟩) <;> cases h

theorem hasName_list_iff {items : List Parameter} :
    HasName name (.list items) ↔ ∃ p ∈ items, HasName name p := by
  constructor
  · intro h
    cases h with
    | item h hp => exact ⟨_, h, hp⟩
  · rintro ⟨p, h, hp⟩
    exact .item h hp

theorem hasName_put {key : String} {p : Parameter} {b : Block}
    (h : HasName name (.block (put key p b))) :
    name = key ∨ HasName name p ∨ HasName name (.block b) := by
  cases h with
  | here h =>
    rcases mem_put h with same | h
    · cases same
      exact .inl rfl
    · exact .inr (.inr (.here h))
  | entry h hp =>
    rcases mem_put h with same | h
    · cases same
      exact .inr (.inl hp)
    · exact .inr (.inr (.entry h hp))

theorem hasName_inner {key : String} {b : Block} (h : HasName name (.block (b.inner key))) :
    HasName name (.block b) := by
  rw [Block.inner] at h
  split at h
  · rename_i found
    exact .entry (mem_of_item? found) h
  · exact absurd h not_hasName_nil

/-- Changing what stands at a path brings no names but those of the path. -/
theorem hasName_update {change : Option Parameter → Parameter}
    (keeps : ∀ current, HasName name (change current) → ∃ p, current = some p ∧ HasName name p)
    {path : List String} {b : Block} (h : HasName name (.block (Block.update change path b))) :
    name ∈ path ∨ HasName name (.block b) := by
  induction path generalizing b with
  | nil => exact .inr h
  | cons first path ih =>
    by_cases last : path = []
    · subst last
      rcases hasName_put h with rfl | changed | old
      · exact .inl List.mem_cons_self
      · obtain ⟨p, found, hp⟩ := keeps _ changed
        exact .inr (.entry (mem_of_item? found) hp)
      · exact .inr old
    · rw [Block.update_cons last] at h
      rcases hasName_put h with rfl | below | old
      · exact .inl List.mem_cons_self
      · exact (ih below).imp (List.mem_cons_of_mem _) hasName_inner
      · exact .inr old

/-- A raw value has no names, so those of what it makes were there. -/
theorem hasName_absorb {raw : String} {current : Option Parameter}
    (h : HasName name (absorb delimiter raw current)) :
    ∃ p, current = some p ∧ HasName name p := by
  unfold absorb at h
  split at h
  · obtain ⟨p, hp, hname⟩ := hasName_list_iff.mp h
    obtain ⟨item, -, rfl⟩ := List.mem_map.mp hp
    exact absurd hname not_hasName_text
  · rcases current with _ | s | items | entries
    · exact absurd h not_hasName_text
    · dsimp only at h
      split at h
      · exact absurd h not_hasName_text
      · obtain ⟨p, hp, hname⟩ := hasName_list_iff.mp h
        rcases List.mem_pair.mp hp with rfl | rfl <;> exact absurd hname not_hasName_text
    · obtain ⟨p, hp, hname⟩ := hasName_list_iff.mp h
      rcases List.mem_append.mp hp with hp | hp
      · exact ⟨_, rfl, .item hp hname⟩
      · obtain rfl := List.mem_singleton.mp hp
        exact absurd hname not_hasName_text
    · obtain ⟨p, hp, hname⟩ := hasName_list_iff.mp h
      rcases List.mem_pair.mp hp with rfl | rfl
      · exact ⟨_, rfl, hname⟩
      · exact absurd hname not_hasName_text

theorem hasName_addPair {b : Block} {p : Pair} (h : HasName name (.block (addPair delimiter b p))) :
    name ∈ p.path ∨ HasName name (.block b) :=
  hasName_update (fun _ => hasName_absorb) h

theorem hasName_foldl {row : List Pair} {b : Block}
    (h : HasName name (.block (row.foldl (addPair delimiter) b))) :
    (∃ p ∈ row, name ∈ p.path) ∨ HasName name (.block b) := by
  induction row generalizing b with
  | nil => exact .inr h
  | cons p row ih =>
    rcases ih h with ⟨q, hq, hname⟩ | h
    · exact .inl ⟨q, List.mem_cons_of_mem _ hq, hname⟩
    · exact (hasName_addPair h).imp_left fun hname => ⟨p, List.mem_cons_self, hname⟩

/-! ## Names on the way -/

theorem hasName_of_at? {path : List String} {p q : Parameter} (h : p.at? path = some q)
    (hname : name ∈ path) : HasName name p := by
  induction path generalizing p with
  | nil => cases hname
  | cons first path ih =>
    cases p with
    | text s => cases h
    | list items => cases h
    | block entries =>
      obtain ⟨item, found, h⟩ := Option.bind_eq_some_iff.mp h
      rcases List.mem_cons.mp hname with rfl | hname
      · exact .here (mem_of_item? found)
      · exact .entry (mem_of_item? found) (ih h hname)

/-- What stands at a path stays there, in whatever form, until a pair above the path comes. -/
theorem at?_foldl_ne_none {path : List String} {row : List Pair} (hrow : ∀ p ∈ row, p.path ≠ [])
    (below : ∀ p ∈ row, p.path <+: path → p.path = path) {b : Block} (h : b.at? path ≠ none) :
    Block.at? path (row.foldl (addPair delimiter) b) ≠ none := by
  induction row generalizing b with
  | nil => exact h
  | cons p row ih =>
    -- A pair at the path or below it leaves something there, and an unrelated one what was there.
    obtain ⟨some, hrow⟩ := List.forall_mem_cons.mp hrow
    obtain ⟨notAbove, below⟩ := List.forall_mem_cons.mp below
    apply ih hrow below
    by_cases related : Related path p.path
    · rcases related.cases with same | ⟨rest, hrest, hpath⟩ | ⟨rest, hrest, hpath⟩
      · rw [same, at?_addPair_self some]
        exact Option.some_ne_none _
      · rw [at?_addPair_below hrest hpath]
        exact Option.some_ne_none _
      · have same := notAbove ⟨rest, hpath.symm⟩
        rw [← same, at?_addPair_self some]
        exact Option.some_ne_none _
    · rwa [at?_addPair_unrelated related]

/-! ## Markers in names -/

/-- The texts of the pairs of a query. -/
def pairTexts (text : String) : List (List Char) :=
  (text.toList.splitOn '&').filter (!·.isEmpty)

/-- The key of a pair, as the query has it. -/
def keyOf (pair : List Char) : List Char :=
  (Text.cutAt '=' pair).1

theorem pairs_eq (text : String) : pairs text = (pairTexts text).map Pair.ofText := rfl

theorem path_ofText (pair : List Char) : (Pair.ofText pair).path = pathOf (keyOf pair) := rfl

/-- Every name of a read query stands on the path of one of its pairs. -/
theorem exists_pair_of_hasName {text : String} (h : HasName name (.block (decode text delimiter))) :
    ∃ pair ∈ pairTexts text, name ∈ pathOf (keyOf pair) := by
  rcases hasName_foldl h with ⟨p, hp, hname⟩ | none
  · rw [pairs_eq] at hp
    obtain ⟨pair, hpair, rfl⟩ := List.mem_map.mp hp
    exact ⟨pair, hpair, hname⟩
  · exact absurd none not_hasName_nil

/-- The names of a pair stay, unless a later pair stands above it. -/
theorem hasName_decode {text : String} {front back : List (List Char)} {pair : List Char}
    (row : pairTexts text = front ++ pair :: back)
    (last : ∀ later ∈ back, pathOf (keyOf later) <+: pathOf (keyOf pair) →
      pathOf (keyOf later) = pathOf (keyOf pair))
    (hname : name ∈ pathOf (keyOf pair)) : HasName name (.block (decode text delimiter)) := by
  have some : (Pair.ofText pair).path ≠ [] := by
    rw [path_ofText]
    exact List.ne_nil_of_mem hname
  have nonempty : ∀ p ∈ back.map Pair.ofText, p.path ≠ [] := by
    intro p hp
    have hp : p ∈ pairs text := by
      rw [pairs_eq, row, List.map_append, List.map_cons]
      exact List.mem_append_right _ (List.mem_cons_of_mem _ hp)
    exact path_ne_nil_of_mem_pairs hp
  have stays : Block.at? (Pair.ofText pair).path (decode text delimiter) ≠ none := by
    rw [decode, blockOf, pairs_eq, row, List.map_append, List.map_cons, List.foldl_append,
      List.foldl_cons]
    apply at?_foldl_ne_none nonempty (List.forall_mem_map.mpr last)
    rw [← path_ofText, at?_addPair_self some]
    exact Option.some_ne_none _
  obtain ⟨p, found⟩ := Option.ne_none_iff_exists'.mp stays
  exact hasName_of_at? found hname

/-- The names of a read query have a list marker in them only if some key has one around others,
and such a key does leave one in a name, unless a later pair stands above its own. -/
theorem decode_marked (text : String) (delimiter : Delimiter) :
    (∀ name, HasName name (.block (decode text delimiter)) → Marked name.toList →
      ∃ pair ∈ pairTexts text, name ∈ pathOf (keyOf pair) ∧ Wraps (keyOf pair)) ∧
    ∀ front pair back, pairTexts text = front ++ pair :: back → Wraps (keyOf pair) →
      (∀ later ∈ back, pathOf (keyOf later) <+: pathOf (keyOf pair) →
        pathOf (keyOf later) = pathOf (keyOf pair)) →
      ∃ name, HasName name (.block (decode text delimiter)) ∧ Marked name.toList := by
  constructor
  · intro name h marked
    obtain ⟨pair, hpair, hname⟩ := exists_pair_of_hasName h
    exact ⟨pair, hpair, hname, exists_marked_iff.mp ⟨name, hname, marked⟩⟩
  · intro front pair back row wraps last
    obtain ⟨name, hname, marked⟩ := exists_marked_iff.mpr wraps
    exact ⟨name, hasName_decode row last hname, marked⟩

/-- The pair of brackets that is left when the one inside it is removed. -/
theorem brackets_left_around_brackets :
    HasName "[]" (.block (decode "[[]]=1")) ∧ Marked "[]".toList := by
  have row : pairs "[[]]=1" = [⟨["[]"], "1"⟩] := by decide +kernel
  refine ⟨?_, by decide⟩
  rw [decode, row]
  exact .here List.mem_cons_self

end Query

end FragmentRouting
