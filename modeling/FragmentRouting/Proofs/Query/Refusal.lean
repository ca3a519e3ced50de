import FragmentRouting.Proofs.Query.Leaves

/-!
# Values that are refused

A query has a place for some kinds of item only, and a mapping with any other item is refused as a
whole. The elements of a list are not looked at: whatever they are, their text is written.

* `Reaches`: the items of a mapping and of the mappings inside it, to any depth;
* `exists_leaf_iff`: the leaves of a mapping are the reached items that are no mappings;
* `withTexts`: a mapping in which each list has only the texts of its elements;
* `entrySegments_withTexts`: both are written alike;
* `encode_refuses_iff`: what is refused, and that no element of a list plays a part in it.
-/

namespace FragmentRouting.Query

/-! ## What a mapping reaches -/

/-- An item of the mapping or of a mapping that it reaches. -/
inductive Reaches : List (Value × Value) → Value → Prop
  | item {key v : Value} {entries : List (Value × Value)} (h : (key, v) ∈ entries) :
      Reaches entries v
  | nested {key v : Value} {entries inner : List (Value × Value)}
      (h : (key, .map inner) ∈ entries) (hv : Reaches inner v) : Reaches entries v

variable {delimiter : Delimiter} {stem : String} {entries : List (Value × Value)}

namespace Reaches

theorem not_nil {v : Value} : ¬ Reaches [] v := by
  rintro (h | ⟨h, -⟩) <;> cases h

/-- A mapping reaches what its first item is or reaches, and what the others reach. -/
theorem cons_iff {key first v : Value} {rest : List (Value × Value)} :
    Reaches ((key, first) :: rest) v ↔
      v = first ∨ (∃ inner, first = .map inner ∧ Reaches inner v) ∨ Reaches rest v := by
  constructor
  · rintro (h | ⟨h, hv⟩)
    · rcases List.mem_cons.mp h with same | h
      · cases same
        exact .inl rfl
      · exact .inr (.inr (.item h))
    · rcases List.mem_cons.mp h with same | h
      · cases same
        exact .inr (.inl ⟨_, rfl, hv⟩)
      · exact .inr (.inr (.nested h hv))
  · rintro (rfl | ⟨inner, rfl, hv⟩ | h)
    · exact .item List.mem_cons_self
    · exact .nested List.mem_cons_self hv
    · cases h with
      | item h => exact .item (List.mem_cons_of_mem _ h)
      | nested h hv => exact .nested (List.mem_cons_of_mem _ h) hv

end Reaches

/-- Among the leaves below a key are those within its item. -/
theorem exists_below_iff {key : String} {leaves : List Leaf} {v : Value} :
    (∃ leaf ∈ leaves.map (Leaf.below key), leaf.item = v) ↔ ∃ leaf ∈ leaves, leaf.item = v := by
  simp [Leaf.below]

-- The induction is on the value, as the row of leaves is made.

mutual

theorem exists_leafWithin_iff (first : Value) {v : Value} (plain : ∀ inner, v ≠ .map inner) :
    (∃ leaf ∈ leavesWithin first, leaf.item = v) ↔
      v = first ∨ ∃ inner, first = .map inner ∧ Reaches inner v := by
  cases first with
  | map inner =>
    rw [leavesWithin, exists_leaf_iff inner plain]
    simp [plain]
  | _ => simp [leavesWithin, eq_comm]

/-- The leaves of a mapping are the items that it reaches and that are no mappings. -/
theorem exists_leaf_iff (entries : List (Value × Value)) {v : Value}
    (plain : ∀ inner, v ≠ .map inner) :
    (∃ leaf ∈ leavesOf entries, leaf.item = v) ↔ Reaches entries v := by
  match entries with
  | [] =>
    constructor
    · rintro ⟨_, h, -⟩
      cases h
    · intro h
      exact absurd h Reaches.not_nil
  | (key, first) :: rest =>
    have within := exists_leafWithin_iff first plain
    have behind := exists_leaf_iff rest plain
    rw [Reaches.cons_iff, ← or_assoc, ← within, ← behind, leavesOf]
    simp only [List.mem_append, or_and_right, exists_or, exists_below_iff]

end

/-! ## Elements of lists -/

mutual

/-- An item in which each list has only the texts of its elements. -/
def itemWithTexts : Value → Value
  | .list items => .list ((elementTexts items).map .text)
  | .tuple items => .tuple ((elementTexts items).map .text)
  | .map entries => .map (withTexts entries)
  | v => v

/-- A mapping in which each list has only the texts of its elements. -/
def withTexts : List (Value × Value) → List (Value × Value)
  | [] => []
  | (key, item) :: rest => (key, itemWithTexts item) :: withTexts rest

end

theorem listSegments_texts (name : String) (items : List Value) :
    listSegments delimiter name ((elementTexts items).map .text) =
      listSegments delimiter name items := by
  rw [listSegments_eq, listSegments_eq, elementTexts_texts]

mutual

theorem itemSegments_withTexts (name : String) (v : Value) :
    itemSegments delimiter name (itemWithTexts v) = itemSegments delimiter name v := by
  cases v with
  | list items | tuple items => simp only [itemWithTexts, itemSegments, listSegments_texts]
  | map entries => simp only [itemWithTexts, itemSegments, entrySegments_withTexts]
  | _ => rfl

/-- Of the elements of lists nothing but their texts is written, or refused. -/
theorem entrySegments_withTexts (stem : String) (entries : List (Value × Value)) :
    entrySegments delimiter stem (withTexts entries) = entrySegments delimiter stem entries := by
  match entries with
  | [] => rfl
  | (key, item) :: rest =>
    simp only [withTexts, entrySegments, itemSegments_withTexts, entrySegments_withTexts]

end

/-! ## Refusal -/

/-- The empty mapping has no segments, so it is written like any other. -/
theorem encode_map (entries : List (Value × Value)) (stem : String) (delimiter : Delimiter) :
    encode (.map entries) stem delimiter =
      (entrySegments delimiter stem entries).map joined := by
  cases entries with
  | nil => rfl
  | cons entry rest => rfl

/-- A row is refused exactly if some leaf does not fit. -/
theorem rowSegments_error_iff {leaves : List Leaf} {failure : Failure} :
    rowSegments delimiter stem leaves = .error failure ↔
      ∃ leaf, leaves.find? (!·.item.fitsQuery) = some leaf ∧
        failure = .notEncodable leaf.item.kindName (leaf.name stem) := by
  unfold rowSegments
  cases leaves.find? (!·.item.fitsQuery) with
  | none => simp
  | some leaf => simp [eq_comm]

theorem ne_map_of_not_fitsQuery {v : Value} (h : v.fitsQuery = false)
    (inner : List (Value × Value)) : v ≠ .map inner := by
  rintro rfl
  cases h

/-- A mapping is refused, as of the wrong type, exactly if it reaches an item that is neither null
nor a scalar, a list or a mapping. What lists hold is not among the items: whatever it is, the
mapping is written, or refused, as if it were text. -/
theorem encode_refuses_iff (entries : List (Value × Value)) (stem : String)
    (delimiter : Delimiter) :
    ((∃ failure, encode (.map entries) stem delimiter = .error failure) ↔
      ∃ v, Reaches entries v ∧ v.fitsQuery = false) ∧
    (∀ failure, encode (.map entries) stem delimiter = .error failure →
      failure.category = .type ∧
      ∃ v name, Reaches entries v ∧ v.fitsQuery = false ∧
        failure = .notEncodable v.kindName name) ∧
    encode (.map (withTexts entries)) stem delimiter = encode (.map entries) stem delimiter := by
  have row : encode (.map entries) stem delimiter =
      (rowSegments delimiter stem (leavesOf entries)).map joined := by
    rw [encode_map, (entrySegments_rowSegments stem entries).map_joined]
  have refused (failure : Failure) : encode (.map entries) stem delimiter = .error failure ↔
      rowSegments delimiter stem (leavesOf entries) = .error failure := by
    rw [row]
    cases rowSegments delimiter stem (leavesOf entries) <;> simp [Except.map]
  have named (failure : Failure) (h : encode (.map entries) stem delimiter = .error failure) :
      failure.category = .type ∧
      ∃ v name, Reaches entries v ∧ v.fitsQuery = false ∧
        failure = .notEncodable v.kindName name := by
    obtain ⟨leaf, found, rfl⟩ := rowSegments_error_iff.mp ((refused failure).mp h)
    have unfit : leaf.item.fitsQuery = false := by simpa using List.find?_some found
    have reached := (exists_leaf_iff entries (ne_map_of_not_fitsQuery unfit)).mp
      ⟨leaf, List.mem_of_find?_eq_some found, rfl⟩
    exact ⟨rfl, leaf.item, leaf.name stem, reached, unfit, rfl⟩
  refine ⟨⟨?_, ?_⟩, named, ?_⟩
  · rintro ⟨failure, h⟩
    obtain ⟨-, v, -, reached, unfit, -⟩ := named failure h
    exact ⟨v, reached, unfit⟩
  · rintro ⟨v, reached, unfit⟩
    have plain := ne_map_of_not_fitsQuery unfit
    obtain ⟨leaf, hleaf, rfl⟩ := (exists_leaf_iff entries plain).mpr reached
    have some : (leavesOf entries).find? (!·.item.fitsQuery) ≠ none := by
      intro none
      have := List.find?_eq_none.mp none leaf hleaf
      simp [unfit] at this
    obtain ⟨first, found⟩ := Option.ne_none_iff_exists'.mp some
    exact ⟨_, (refused _).mpr (rowSegments_error_iff.mpr ⟨first, found, rfl⟩)⟩
  · rw [encode_map, encode_map, entrySegments_withTexts]

/-- Bytes in a list are written by what they look like, though they are no element of a list that a
query can hold. -/
theorem bytes_in_list_not_refused :
    Reaches [(.text "a", .list [.bytes [120]])] (.list [.bytes [120]]) ∧
      ¬ IsElement (.bytes [120]) ∧
      encode (.map [(.text "a", .list [.bytes [120]])]) = .ok "a=|b'x'" := by
  refine ⟨.item List.mem_cons_self, ?_, by decide +kernel⟩
  rintro (h | h) <;> cases h

end FragmentRouting.Query
