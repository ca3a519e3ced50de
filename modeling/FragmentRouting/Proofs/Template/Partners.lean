import Mathlib.Data.List.Nodup
import Mathlib.Data.List.Perm.Subperm
import Mathlib.Data.Nat.Find
import FragmentRouting.Proofs.Template.Pairing

/-!
# Partners of parentheses

Pairs of parentheses, told without saying how they are found:

* `Matching`: pairs that nest, with no parenthesis left over inside a pair and no closing one left
  over behind an opening one;
* `Matching.length_le`: no other choice of pairs has more of them;
* `grouped`: the text with each pair around what may be absent.
-/

namespace FragmentRouting.Template

/-! ## Matchings -/

/-- The positions at the two ends of pairs. -/
def positions (pairs : List (Nat × Nat)) : List Nat :=
  pairs.flatMap fun p => [p.1, p.2]

/-- Pairs of an opening and a closing parenthesis behind it, of which no two share a parenthesis. -/
structure Pairing (text : List Char) (pairs : List (Nat × Nat)) : Prop where
  parentheses : ∀ p ∈ pairs, p.1 < p.2 ∧ text[p.1]? = some '(' ∧ text[p.2]? = some ')'
  distinct : (positions pairs).Nodup

structure Matching (text : List Char) (pairs : List (Nat × Nat)) : Prop
    extends Pairing text pairs where
  /-- No two pairs cross. -/
  nested : ∀ p ∈ pairs, ∀ q ∈ pairs, p.1 < q.1 → q.1 < p.2 → q.2 < p.2
  /-- Every parenthesis inside a pair has its partner there. -/
  inside : ∀ p ∈ pairs, ∀ k c, p.1 < k → k < p.2 → text[k]? = some c → IsParenthesis c →
    ∃ q ∈ pairs, k ∈ [q.1, q.2] ∧ p.1 < q.1 ∧ q.2 < p.2
  /-- Of the parentheses left over, the closing ones come first. -/
  leftOver : ∀ i j, text[i]? = some '(' → text[j]? = some ')' → i ∉ positions pairs →
    j ∉ positions pairs → j < i

/-- The text with each pair around what may be absent. -/
def grouped (text : List Char) (pairs : List (Nat × Nat)) : List Char :=
  text.zipIdx.flatMap fun c =>
    if c.2 ∈ pairs.map Prod.fst then "(?:".toList
    else if c.2 ∈ pairs.map Prod.snd then ")?".toList
    else [c.1]

variable {text : List Char} {pairs : List (Nat × Nat)}

theorem mem_positions {k : Nat} : k ∈ positions pairs ↔ ∃ p ∈ pairs, k ∈ [p.1, p.2] :=
  List.mem_flatMap

theorem positions_append (first rest : List (Nat × Nat)) :
    positions (first ++ rest) = positions first ++ positions rest :=
  List.flatMap_append

theorem mem_positions_iff {k : Nat} :
    k ∈ positions pairs ↔ k ∈ pairs.map Prod.fst ∨ k ∈ pairs.map Prod.snd := by
  simp only [mem_positions, List.mem_pair, List.mem_map, eq_comm (a := k), and_or_left, exists_or]

theorem Pairing.opens {k : Nat} (h : Pairing text pairs) (hk : k ∈ pairs.map Prod.fst) :
    text[k]? = some '(' := by
  obtain ⟨p, hp, rfl⟩ := List.mem_map.mp hk
  exact (h.parentheses p hp).2.1

theorem Pairing.closes {k : Nat} (h : Pairing text pairs) (hk : k ∈ pairs.map Prod.snd) :
    text[k]? = some ')' := by
  obtain ⟨p, hp, rfl⟩ := List.mem_map.mp hk
  exact (h.parentheses p hp).2.2

/-- No parenthesis is both. -/
theorem not_closes {k : Nat} (opens : text[k]? = some '(') : text[k]? ≠ some ')' := by
  rw [opens]
  decide

theorem Pairing.not_mem_snd {k : Nat} (h : Pairing text pairs) (opens : text[k]? = some '(') :
    k ∉ pairs.map Prod.snd := by
  intro hk
  exact not_closes opens (h.closes hk)

theorem Pairing.not_mem_fst {k : Nat} (h : Pairing text pairs) (closes : text[k]? = some ')') :
    k ∉ pairs.map Prod.fst := by
  intro hk
  exact not_closes (h.opens hk) closes

theorem Pairing.nodup_fst (h : Pairing text pairs) : (pairs.map Prod.fst).Nodup := by
  have distinct := (List.nodup_flatMap.mp h.distinct).2
  refine List.pairwise_map.mpr (distinct.imp ?_)
  intro p q apart same
  exact apart List.mem_cons_self (List.mem_pair.mpr (.inl same))

theorem Pairing.nodup_snd (h : Pairing text pairs) : (pairs.map Prod.snd).Nodup := by
  have distinct := (List.nodup_flatMap.mp h.distinct).2
  refine List.pairwise_map.mpr (distinct.imp ?_)
  intro p q apart same
  exact apart (List.mem_pair.mpr (.inr rfl)) (List.mem_pair.mpr (.inr same))

theorem Pairing.eq_of_fst (h : Pairing text pairs) {p q : Nat × Nat} (hp : p ∈ pairs)
    (hq : q ∈ pairs) (same : p.1 = q.1) : p = q :=
  List.inj_on_of_nodup_map h.nodup_fst hp hq same

/-! ## No choice of pairs is larger -/

/-- The left over closing parentheses stand before some position and the left over opening ones
behind it, and no pair lies on both sides. -/
theorem Matching.exists_cut (h : Matching text pairs) :
    ∃ cut, (∀ j, text[j]? = some ')' → j ∉ positions pairs → j < cut) ∧
      (∀ i, text[i]? = some '(' → i ∉ positions pairs → cut ≤ i) ∧
      ∀ p ∈ pairs, p.1 < cut → p.2 < cut := by
  classical
  have bounded : ∃ cut, ∀ j, text[j]? = some ')' → j ∉ positions pairs → j < cut :=
    ⟨text.length, fun j found _ => (List.getElem?_eq_some_iff.mp found).1⟩
  refine ⟨Nat.find bounded, Nat.find_spec bounded, ?_⟩
  cases least : Nat.find bounded with
  | zero => exact ⟨fun i _ _ => Nat.zero_le i, fun p _ low => absurd low (Nat.not_lt_zero _)⟩
  | succ last =>
    -- The least bound lies right behind the last one of the left over closing parentheses.
    have spec := Nat.find_spec bounded
    have smaller := Nat.find_min bounded (m := last) (by omega)
    simp only [not_forall] at smaller
    obtain ⟨j, closes, absent, high⟩ := smaller
    obtain rfl : j = last := by
      have := spec j closes absent
      omega
    constructor
    · intro i opens hi
      exact h.leftOver i j opens closes hi absent
    · intro p hp low
      have unpaired : j ∉ [p.1, p.2] := fun hj => absent (mem_positions.mpr ⟨p, hp, hj⟩)
      rw [List.mem_pair, not_or] at unpaired
      by_contra beyond
      obtain ⟨q, hq, hj, -⟩ := h.inside p hp j ')' (by omega) (by omega) closes (.inr rfl)
      exact absent (mem_positions.mpr ⟨q, hq, hj⟩)

/-- Pairs are no more than others if each of them shares an end with one of the others. -/
theorem length_filter_le {others : List (Nat × Nat)} {keep : Nat × Nat → Bool}
    {endOf : Nat × Nat → Nat} (distinct : (others.map endOf).Nodup)
    (shared : ∀ p ∈ others, keep p = true → ∃ q ∈ pairs, keep q = true ∧ endOf q = endOf p) :
    (others.filter keep).length ≤ (pairs.filter keep).length := by
  have ends : (others.filter keep).map endOf ⊆ (pairs.filter keep).map endOf := by
    intro i hi
    obtain ⟨p, hp, rfl⟩ := List.mem_map.mp hi
    obtain ⟨hp, kept⟩ := List.mem_filter.mp hp
    obtain ⟨q, hq, kept', same⟩ := shared p hp kept
    exact List.mem_map.mpr ⟨q, List.mem_filter.mpr ⟨hq, kept'⟩, same⟩
  have nodup : ((others.filter keep).map endOf).Nodup :=
    distinct.sublist (List.filter_sublist.map endOf)
  simpa only [List.length_map] using (List.subperm_of_subset nodup ends).length_le

/-- A matching is as large as any choice of pairs: before the cut all opening parentheses are
taken, and behind it all closing ones. -/
theorem Matching.length_le (h : Matching text pairs) {others : List (Nat × Nat)}
    (other : Pairing text others) : others.length ≤ pairs.length := by
  obtain ⟨cut, closing, opening, whole⟩ := h.exists_cut
  have before : (others.filter fun p => p.2 < cut).length ≤
      (pairs.filter fun p => p.2 < cut).length := by
    apply length_filter_le other.nodup_fst
    intro p hp low
    obtain ⟨order, opens, -⟩ := other.parentheses p hp
    have low := of_decide_eq_true low
    have paired : p.1 ∈ positions pairs := by
      by_contra absent
      have := opening p.1 opens absent
      omega
    have opened := (mem_positions_iff.mp paired).resolve_right (h.not_mem_snd opens)
    obtain ⟨q, hq, same⟩ := List.mem_map.mp opened
    have inner : q.2 < cut := whole q hq (by omega)
    exact ⟨q, hq, decide_eq_true inner, same⟩
  have behind : (others.filter fun p => !decide (p.2 < cut)).length ≤
      (pairs.filter fun p => !decide (p.2 < cut)).length := by
    apply length_filter_le other.nodup_snd
    intro p hp high
    obtain ⟨-, -, closes⟩ := other.parentheses p hp
    have high : ¬ p.2 < cut := by simpa using high
    have paired : p.2 ∈ positions pairs := by
      by_contra absent
      exact high (closing p.2 closes absent)
    have closed := (mem_positions_iff.mp paired).resolve_left (h.not_mem_fst closes)
    obtain ⟨q, hq, same⟩ := List.mem_map.mp closed
    have outer : ¬ q.2 < cut := same ▸ high
    exact ⟨q, hq, by simpa using outer, same⟩
  have parts (row : List (Nat × Nat)) : row.length =
      (row.filter fun p => p.2 < cut).length + (row.filter fun p => !decide (p.2 < cut)).length :=
    List.length_eq_length_filter_add _
  rw [parts others, parts pairs]
  exact Nat.add_le_add before behind

end FragmentRouting.Template
