import FragmentRouting.Proofs.Query.Flattening
import FragmentRouting.Proofs.Query.KeyOrder

/-!
# Pairs on unrelated paths

Which pairs of a query decide what is read at a path:

* `at?_foldl_related`: the pairs on related paths alone, by an induction on the pairs that keeps two
  blocks equal at the path and nowhere else;
* `pairs_relatedQuery`: these pairs are a query of their own;
* `alike_of_sameOrder`: queries whose related pairs have the same order are read alike;
* `sameOrder_of_perm`: pairs on pairwise unrelated paths can be put in any order;
* `decode_noninterference`: both, for reading a whole query.
-/

namespace FragmentRouting.Query

open Block (at? within)

variable {delimiter : Delimiter} {path : List String}

/-- What a pair on a related path makes of a path depends only on what was there. -/
theorem at?_addPair_congr {p : Pair} (hp : p.path ≠ []) (related : Related path p.path)
    {b b' : Block} (same : at? path b = at? path b') :
    at? path (addPair delimiter b p) = at? path (addPair delimiter b' p) := by
  rcases related.cases with rfl | ⟨rest, hrest, below⟩ | ⟨rest, hrest, above⟩
  · rw [at?_addPair_self hp, at?_addPair_self hp, same]
  · have inner : within path b = within path b' := by rw [within, within, same]
    rw [at?_addPair_below hrest below, at?_addPair_below hrest below, inner]
  · rw [at?_addPair_above hp hrest above, at?_addPair_above hp hrest above]

/-- A row of pairs makes the same of a path as its pairs on related paths alone. -/
theorem at?_foldl_related {row : List Pair} (h : ∀ p ∈ row, p.path ≠ []) {b b' : Block}
    (same : at? path b = at? path b') :
    at? path (row.foldl (addPair delimiter) b) =
      at? path ((row.filter fun p => Related path p.path).foldl (addPair delimiter) b') := by
  induction row generalizing b b' with
  | nil => exact same
  | cons p row ih =>
    obtain ⟨hp, hrow⟩ := List.forall_mem_cons.mp h
    by_cases related : Related path p.path
    · rw [List.filter_cons, if_pos (decide_eq_true related)]
      exact ih hrow (at?_addPair_congr hp related same)
    · rw [List.filter_cons, if_neg (by simpa using related)]
      exact ih hrow ((at?_addPair_unrelated related b).trans same)

/-! ## The text of related pairs -/

/-- The query without its pairs on unrelated paths. -/
def relatedQuery (path : List String) (text : String) : String :=
  joined ((((text.toList.splitOn '&').filter (!·.isEmpty)).filter fun pair =>
    Related path (Pair.ofText pair).path).map String.ofList)

theorem not_mem_of_mem_splitOn {mark : Char} {text piece : List Char}
    (h : piece ∈ text.splitOn mark) : mark ∉ piece := by
  induction text generalizing piece with
  | nil =>
    obtain rfl := List.mem_singleton.mp h
    exact List.not_mem_nil
  | cons c rest ih =>
    rw [List.splitOn_cons_eq_if_modifyHead] at h
    split at h
    · rcases List.mem_cons.mp h with rfl | h
      · exact List.not_mem_nil
      · exact ih h
    · rename_i other
      obtain ⟨first, more, hsplit⟩ := List.exists_cons_of_ne_nil (List.splitOn_ne_nil mark rest)
      rw [hsplit] at h ih
      rcases List.mem_cons.mp h with rfl | h
      · have absent : mark ∉ first := ih List.mem_cons_self
        rw [List.mem_cons, not_or]
        exact ⟨fun e => other (by rw [e, beq_self_eq_true]), absent⟩
      · exact ih (List.mem_cons_of_mem _ h)

theorem pairs_relatedQuery (path : List String) (text : String) :
    pairs (relatedQuery path text) = (pairs text).filter fun p => Related path p.path := by
  have single : ∀ piece ∈ (text.toList.splitOn '&').filter (!·.isEmpty),
      pairs (String.ofList piece) = [Pair.ofText piece] := by
    intro piece hpiece
    obtain ⟨hpiece, nonempty⟩ := List.mem_filter.mp hpiece
    have whole := List.splitOn_eq_singleton (not_mem_of_mem_splitOn hpiece)
    simp [pairs, whole, nonempty]
  rw [relatedQuery, pairs_joined, List.flatMap_map, pairs, List.filter_map, List.map_eq_flatMap]
  apply List.flatMap_congr
  intro piece hpiece
  exact single piece (List.mem_of_mem_filter hpiece)

/-! ## Reordering -/

open Parameter (Alike)

theorem alike_absorb (raw : String) {p p' : Option Parameter} (h : Option.Rel Alike p p') :
    Alike (absorb delimiter raw p) (absorb delimiter raw p') := by
  unfold absorb
  cases delimiter.items? raw with
  | some items => exact .refl _
  | none =>
    cases h with
    | none => exact .refl _
    | some h =>
      have value := Alike.refl (.text (Percent.decode raw))
      cases h with
      | text s => exact .refl _
      | list h => exact .list (List.rel_append h (.cons value .nil))
      | block names items => exact .list (.cons (.block names items) (.cons value .nil))

theorem alike_addPair {b b' : Block} (h : b.Alike b') (p : Pair) :
    (addPair delimiter b p).Alike (addPair delimiter b' p) :=
  Block.alike_update (fun _ _ => alike_absorb p.raw) p.path h

theorem alike_foldl {b b' : Block} (h : b.Alike b') (row : List Pair) :
    (row.foldl (addPair delimiter) b).Alike (row.foldl (addPair delimiter) b') := by
  induction row generalizing b b' with
  | nil => exact h
  | cons p row ih => exact ih (alike_addPair h p)

/-- A pair can be read before pairs on unrelated paths. -/
theorem alike_move {p : Pair} {front : List Pair}
    (apart : ∀ q ∈ front, ¬ Related q.path p.path) (back : List Pair) (b : Block) :
    ((p :: front ++ back).foldl (addPair delimiter) b).Alike
      ((front ++ p :: back).foldl (addPair delimiter) b) := by
  induction front generalizing b with
  | nil => exact .refl _
  | cons q front ih =>
    obtain ⟨hq, hfront⟩ := List.forall_mem_cons.mp apart
    have swapped : (addPair delimiter (addPair delimiter b p) q).Alike
        (addPair delimiter (addPair delimiter b q) p) := Block.update_swap hq b
    exact (alike_foldl swapped (front ++ back)).trans (ih hfront (addPair delimiter b q))

/-- The pairs on any two related paths come in the same order in both rows. -/
def SameOrder (row row' : List Pair) : Prop :=
  ∀ path other, Related path other →
    row.filter (fun p => p.path = path ∨ p.path = other) =
      row'.filter fun p => p.path = path ∨ p.path = other

theorem SameOrder.eq_nil {row' : List Pair} (h : SameOrder [] row') : row' = [] := by
  rw [List.eq_nil_iff_forall_not_mem]
  intro p hp
  have kept := h p.path p.path (.inl List.prefix_rfl)
  rw [List.filter_nil, eq_comm, List.filter_eq_nil_iff] at kept
  simpa using kept p hp

/-- The first pair of one row stands in the other row behind pairs on unrelated paths only, and
without it both rows still have the same order. -/
theorem SameOrder.exists_move {p : Pair} {row row' : List Pair} (h : SameOrder (p :: row) row') :
    ∃ front back, row' = front ++ p :: back ∧ (∀ q ∈ front, ¬ Related q.path p.path) ∧
      SameOrder row (front ++ back) := by
  have present : p ∈ row' := by
    have kept := h p.path p.path (.inl List.prefix_rfl)
    have first : p ∈ row'.filter fun q => q.path = p.path ∨ q.path = p.path := by
      rw [← kept]
      simp
    exact List.mem_of_mem_filter first
  obtain ⟨front, back, rfl, absent⟩ := List.eq_append_cons_of_mem present
  have apart : ∀ q ∈ front, ¬ Related q.path p.path := by
    intro q hq related
    have kept := h q.path p.path related
    have hit : q ∈ front.filter fun r => r.path = q.path ∨ r.path = p.path := by simp [hq]
    obtain ⟨first, more, hfront⟩ := List.exists_cons_of_ne_nil (List.ne_nil_of_mem hit)
    rw [List.filter_append, List.filter_cons_of_pos (by simp), hfront] at kept
    obtain rfl : p = first := (List.cons.inj kept).1
    exact absent (List.mem_of_mem_filter (hfront ▸ List.mem_cons_self))
  refine ⟨front, back, rfl, apart, ?_⟩
  intro path other related
  have kept := h path other related
  rw [List.filter_append] at kept ⊢
  by_cases hit : p.path = path ∨ p.path = other
  · have none : front.filter (fun q => q.path = path ∨ q.path = other) = [] := by
      rw [List.filter_eq_nil_iff]
      intro q hq hkept
      exact apart q hq (related.of_mem (of_decide_eq_true hkept) hit)
    rw [List.filter_cons_of_pos (by simpa using hit), List.filter_cons_of_pos (by simpa using hit),
      none] at kept
    rw [none]
    exact (List.cons.inj kept).2
  · rwa [List.filter_cons_of_neg (by simpa using hit), List.filter_cons_of_neg (by simpa using hit)]
      at kept

theorem alike_of_sameOrder {row row' : List Pair} (h : SameOrder row row') (b : Block) :
    (row.foldl (addPair delimiter) b).Alike (row'.foldl (addPair delimiter) b) := by
  induction row generalizing row' b with
  | nil =>
    rw [h.eq_nil]
    exact .refl _
  | cons p row ih =>
    obtain ⟨front, back, rfl, apart, rest⟩ := h.exists_move
    exact (ih rest (addPair delimiter b p)).trans (alike_move apart back b)

/-- Pairs on pairwise unrelated paths that stand together can be put in any order. -/
theorem sameOrder_of_perm {moved moved' : List Pair} (perm : moved.Perm moved')
    (apart : moved.Pairwise fun p q => ¬ Related p.path q.path) (before after : List Pair) :
    SameOrder (before ++ moved ++ after) (before ++ moved' ++ after) := by
  intro path other related
  let keep (p : Pair) : Bool := p.path = path ∨ p.path = other
  have kept : (moved.filter keep).Perm (moved'.filter keep) := perm.filter keep
  have same : moved.filter keep = moved'.filter keep := by
    -- Two pairs that are both kept would be related, so at most one is.
    match hkept : moved.filter keep with
    | [] => rw [hkept] at kept; exact kept.nil_eq
    | [p] => rw [hkept] at kept; exact List.singleton_perm.mp kept
    | p :: q :: rest =>
      have alone : (moved.filter keep).Pairwise fun p q => ¬ Related p.path q.path :=
        apart.filter keep
      have hits : ∀ r ∈ moved.filter keep, r.path = path ∨ r.path = other := fun r hr =>
        of_decide_eq_true (List.mem_filter.mp hr).2
      rw [hkept] at alone hits
      have hpq : ¬ Related p.path q.path := List.rel_of_pairwise_cons alone List.mem_cons_self
      exact absurd (related.of_mem (hits p (by simp)) (hits q (by simp))) hpq
  simp only [List.filter_append]
  congr 2

/-- What stands at a path is decided by the pairs on related paths alone. Queries in which related
pairs have the same order are read alike, up to the order of keys. -/
theorem decode_noninterference (text : String) (delimiter : Delimiter) :
    (∀ path, at? path (decode text delimiter) =
      at? path (decode (relatedQuery path text) delimiter)) ∧
    ∀ text', SameOrder (pairs text) (pairs text') →
      (decode text delimiter).Alike (decode text' delimiter) := by
  constructor
  · intro path
    rw [decode, decode, pairs_relatedQuery]
    exact at?_foldl_related (fun p => path_ne_nil_of_mem_pairs) rfl
  · intro text' h
    exact alike_of_sameOrder h []

theorem decode_noninterference_of_rotated :
    SameOrder (pairs "a.x=1&b=2&a.y=|3") (pairs "a.y=|3&a.x=1&b=2") ∧
      relatedQuery ["a", "x"] "a.x=1&b=2&a.y=|3" = "a.x=1" ∧
      at? ["a", "x"] (decode "a.x=1&b=2&a.y=|3") = at? ["a", "x"] (decode "a.x=1") ∧
      (decode "a.x=1&b=2&a.y=|3").Alike (decode "a.y=|3&a.x=1&b=2") := by
  have main := decode_noninterference "a.x=1&b=2&a.y=|3" (some "|")
  have related : relatedQuery ["a", "x"] "a.x=1&b=2&a.y=|3" = "a.x=1" := by decide +kernel
  have perm : (pairs "a.x=1&b=2&a.y=|3").Perm (pairs "a.y=|3&a.x=1&b=2") := by decide +kernel
  have apart : (pairs "a.x=1&b=2&a.y=|3").Pairwise fun p q => ¬ Related p.path q.path := by
    decide +kernel
  have order := sameOrder_of_perm perm apart [] []
  simp only [List.nil_append, List.append_nil] at order
  exact ⟨order, related, related ▸ main.1 ["a", "x"], main.2 _ order⟩

end FragmentRouting.Query
