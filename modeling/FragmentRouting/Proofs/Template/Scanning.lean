import FragmentRouting.Proofs.Template.Partners
import FragmentRouting.Proofs.Template.WellFormed

/-!
# Scanning for partners

Which parentheses of a text become a group is found in one scan with a stack:

* `Scan.Sound`: what a scan has found at any time, kept by `Sound.next` and so by `Sound.run`;
* `Scan.Counted`: the parentheses that wait are those of the depth of the text;
* `optionalGroups_matching`: groups are made of a matching, and of all parentheses exactly if the
  text is balanced.
-/

namespace FragmentRouting.Template

variable {text seen : List Char} {c : Char}

/-- What a scan has found: pairs, and the opening parentheses that wait for a partner, the last one
first. -/
structure Scan where
  pairs : List (Nat × Nat)
  opened : List Nat

namespace Scan

/-- The scan after one more character. -/
def next (s : Scan) (position : Nat) (c : Char) : Scan :=
  if c = '(' then { s with opened := position :: s.opened }
  else if c = ')' then
    match s.opened with
    | [] => s
    | first :: others => ⟨s.pairs ++ [(first, position)], others⟩
  else s

/-- The scan after a text that begins at a position. -/
def run (s : Scan) : Nat → List Char → Scan
  | _, [] => s
  | position, c :: rest => run (s.next position c) (position + 1) rest

/-- The four things that a character can do. -/
theorem next_cases (s : Scan) (position : Nat) (c : Char) :
    (c = '(' ∧ s.next position c = ⟨s.pairs, position :: s.opened⟩) ∨
    (c = ')' ∧ s.opened = [] ∧ s.next position c = s) ∨
    (∃ first others, c = ')' ∧ s.opened = first :: others ∧
      s.next position c = ⟨s.pairs ++ [(first, position)], others⟩) ∨
    (¬ IsParenthesis c ∧ s.next position c = s) := by
  by_cases opens : c = '('
  · exact .inl ⟨opens, by simp [next, opens]⟩
  · by_cases closes : c = ')'
    · cases waiting : s.opened with
      | nil => exact .inr (.inl ⟨closes, rfl, by simp [next, closes, waiting]⟩)
      | cons first others =>
        exact .inr (.inr (.inl ⟨first, others, closes, rfl, by simp [next, closes, waiting]⟩))
    · exact .inr (.inr (.inr ⟨not_or.mpr ⟨opens, closes⟩, by simp [next, opens, closes]⟩))

/-- The positions of partners are those of the pairs that a scan finds. -/
theorem positions_run (s : Scan) (position : Nat) (text : List Char) :
    positions (s.run position text).pairs =
      positions s.pairs ++ partners position s.opened text := by
  induction text generalizing s position with
  | nil => simp [run, partners]
  | cons c rest ih =>
    rw [run, ih]
    rcases s.next_cases position c with ⟨rfl, h⟩ | ⟨rfl, waiting, h⟩ |
      ⟨first, others, rfl, waiting, h⟩ | ⟨plain, h⟩
    · rw [h, partners_opening]
    · rw [h, waiting, partners_stray]
    · rw [h, waiting, partners_closing, positions_append, List.append_assoc]
      rfl
    · have word : ∀ d ∈ [c], ¬ IsParenthesis d := List.forall_mem_singleton.mpr plain
      rw [h, ← List.singleton_append, partners_append word]
      rfl

/-- What a scan has found in the text that it has seen. -/
structure Sound (s : Scan) (seen : List Char) : Prop extends Pairing seen s.pairs where
  waits : ∀ i ∈ s.opened, seen[i]? = some '(' ∧ i ∉ positions s.pairs
  sorted : s.opened.Pairwise (· > ·)
  inside : ∀ p ∈ s.pairs, ∀ k c, p.1 < k → k < p.2 → seen[k]? = some c → IsParenthesis c →
    ∃ q ∈ s.pairs, k ∈ [q.1, q.2] ∧ p.1 < q.1 ∧ q.2 < p.2
  /-- Behind a parenthesis that waits, all others wait too or have their partner there. -/
  behind : ∀ i ∈ s.opened, ∀ k c, i < k → seen[k]? = some c → IsParenthesis c →
    k ∈ s.opened ∨ ∃ q ∈ s.pairs, k ∈ [q.1, q.2] ∧ i < q.1
  opening : ∀ k, seen[k]? = some '(' → k ∈ s.opened ∨ k ∈ positions s.pairs

variable {s : Scan}

theorem getElem?_concat_iff {k : Nat} {d : Char} :
    (seen ++ [c])[k]? = some d ↔ seen[k]? = some d ∨ (k = seen.length ∧ d = c) := by
  rcases Nat.lt_trichotomy k seen.length with before | rfl | after
  · rw [List.getElem?_append_left before]
    have : k ≠ seen.length := by omega
    simp [this]
  · simp [eq_comm]
  · have none : seen[k]? = none := List.getElem?_eq_none (by omega)
    rw [List.getElem?_append_right (by omega), none]
    have : k ≠ seen.length := by omega
    have : k - seen.length ≠ 0 := by omega
    simp [*]

theorem lt_length {k : Nat} {d : Char} (h : seen[k]? = some d) : k < seen.length :=
  (List.getElem?_eq_some_iff.mp h).1

theorem sound_start : Sound ⟨[], []⟩ [] where
  parentheses := List.forall_mem_nil _
  distinct := List.nodup_nil
  waits := List.forall_mem_nil _
  sorted := .nil
  inside := List.forall_mem_nil _
  behind := List.forall_mem_nil _
  opening := by simp

namespace Sound

/-- A parenthesis of a pair has been seen. -/
theorem lt_of_mem_positions (h : Sound s seen) {k : Nat} (hk : k ∈ positions s.pairs) :
    k < seen.length := by
  obtain ⟨p, hp, hk⟩ := mem_positions.mp hk
  obtain ⟨-, opens, closes⟩ := h.parentheses p hp
  rcases List.mem_pair.mp hk with rfl | rfl
  · exact lt_length opens
  · exact lt_length closes

/-- The pairs found so far are not touched by what is read behind them. -/
theorem parentheses_concat (h : Sound s seen) : ∀ p ∈ s.pairs,
    p.1 < p.2 ∧ (seen ++ [c])[p.1]? = some '(' ∧ (seen ++ [c])[p.2]? = some ')' := by
  intro p hp
  obtain ⟨order, opens, closes⟩ := h.parentheses p hp
  exact ⟨order, getElem?_concat_iff.mpr (.inl opens), getElem?_concat_iff.mpr (.inl closes)⟩

theorem inside_concat (h : Sound s seen) : ∀ p ∈ s.pairs, ∀ k d, p.1 < k → k < p.2 →
    (seen ++ [c])[k]? = some d → IsParenthesis d →
    ∃ q ∈ s.pairs, k ∈ [q.1, q.2] ∧ p.1 < q.1 ∧ q.2 < p.2 := by
  intro p hp k d low high found parenthesis
  rcases getElem?_concat_iff.mp found with found | ⟨rfl, -⟩
  · exact h.inside p hp k d low high found parenthesis
  · have := lt_length (h.parentheses p hp).2.2
    omega

/-- A character that is no parenthesis changes nothing. -/
theorem plain (h : Sound s seen) (plain : ¬ IsParenthesis c) : Sound s (seen ++ [c]) where
  parentheses := h.parentheses_concat
  distinct := h.distinct
  waits := fun i hi => ⟨getElem?_concat_iff.mpr (.inl (h.waits i hi).1), (h.waits i hi).2⟩
  sorted := h.sorted
  inside := h.inside_concat
  behind := by
    intro i hi k d low found parenthesis
    rcases getElem?_concat_iff.mp found with found | ⟨-, rfl⟩
    · exact h.behind i hi k d low found parenthesis
    · exact absurd parenthesis plain
  opening := by
    intro k found
    rcases getElem?_concat_iff.mp found with found | ⟨-, rfl⟩
    · exact h.opening k found
    · exact absurd (.inl rfl) plain

theorem opens (h : Sound s seen) :
    Sound ⟨s.pairs, seen.length :: s.opened⟩ (seen ++ ['(']) where
  parentheses := h.parentheses_concat
  distinct := h.distinct
  waits := by
    refine List.forall_mem_cons.mpr ⟨⟨getElem?_concat_iff.mpr (.inr ⟨rfl, rfl⟩), ?_⟩, ?_⟩
    · intro found
      exact Nat.lt_irrefl _ (h.lt_of_mem_positions found)
    · intro i hi
      exact ⟨getElem?_concat_iff.mpr (.inl (h.waits i hi).1), (h.waits i hi).2⟩
  sorted := List.pairwise_cons.mpr ⟨fun i hi => lt_length (h.waits i hi).1, h.sorted⟩
  inside := h.inside_concat
  behind := by
    intro i hi k d low found parenthesis
    rcases getElem?_concat_iff.mp found with found | ⟨rfl, -⟩
    · rcases List.mem_cons.mp hi with rfl | hi
      · have := lt_length found
        omega
      · exact (h.behind i hi k d low found parenthesis).imp_left (List.mem_cons_of_mem _)
    · exact .inl List.mem_cons_self
  opening := by
    intro k found
    rcases getElem?_concat_iff.mp found with found | ⟨rfl, -⟩
    · exact (h.opening k found).imp_left (List.mem_cons_of_mem _)
    · exact .inl List.mem_cons_self

/-- A closing parenthesis outside all groups stays without a partner. -/
theorem stray (h : Sound s seen) (none : s.opened = []) : Sound s (seen ++ [')']) where
  parentheses := h.parentheses_concat
  distinct := h.distinct
  waits := by simp [none]
  sorted := h.sorted
  inside := h.inside_concat
  behind := by simp [none]
  opening := by
    intro k found
    rcases getElem?_concat_iff.mp found with found | ⟨-, other⟩
    · exact h.opening k found
    · cases other

/-! The last parenthesis that waits is closed. -/

section
variable {first : Nat} {others : List Nat}

theorem waits_first (h : Sound s seen) (waiting : s.opened = first :: others) :
    seen[first]? = some '(' ∧ first ∉ positions s.pairs :=
  h.waits first (waiting ▸ List.mem_cons_self)

theorem lt_first (h : Sound s seen) (waiting : s.opened = first :: others) :
    ∀ i ∈ others, i < first :=
  (List.pairwise_cons.mp (waiting ▸ h.sorted)).1

/-- What stands behind the last parenthesis that waits has its partner there. -/
theorem behind_first (h : Sound s seen) (waiting : s.opened = first :: others) {k : Nat} {d : Char}
    (low : first < k) (found : seen[k]? = some d) (parenthesis : IsParenthesis d) :
    ∃ q ∈ s.pairs, k ∈ [q.1, q.2] ∧ first < q.1 := by
  refine (h.behind first (waiting ▸ List.mem_cons_self) k d low found parenthesis).resolve_left ?_
  rw [waiting]
  intro waits
  rcases List.mem_cons.mp waits with rfl | waits
  · exact Nat.lt_irrefl _ low
  · exact Nat.lt_asymm low (h.lt_first waiting k waits)

theorem pairing_closes (h : Sound s seen) (waiting : s.opened = first :: others) :
    Pairing (seen ++ [')']) (s.pairs ++ [(first, seen.length)]) where
  parentheses := by
    rw [List.forall_mem_append]
    refine ⟨h.parentheses_concat, List.forall_mem_singleton.mpr ⟨?_, ?_, ?_⟩⟩
    · exact lt_length (h.waits_first waiting).1
    · exact getElem?_concat_iff.mpr (.inl (h.waits_first waiting).1)
    · exact getElem?_concat_iff.mpr (.inr ⟨rfl, rfl⟩)
  distinct := by
    obtain ⟨found, fresh⟩ := h.waits_first waiting
    have before := lt_length found
    rw [positions_append, List.nodup_append]
    refine ⟨h.distinct, by simpa [positions] using before.ne, ?_⟩
    intro k hk j hj same
    have := h.lt_of_mem_positions hk
    simp only [positions, List.flatMap_singleton, List.mem_cons, List.not_mem_nil, or_false] at hj
    rcases hj with rfl | rfl
    · exact fresh (same ▸ hk)
    · omega

theorem waits_closes (h : Sound s seen) (waiting : s.opened = first :: others) :
    ∀ i ∈ others, (seen ++ [')'])[i]? = some '(' ∧
      i ∉ positions (s.pairs ++ [(first, seen.length)]) := by
  intro i hi
  obtain ⟨found, absent⟩ := h.waits i (waiting ▸ List.mem_cons_of_mem _ hi)
  have := h.lt_first waiting i hi
  have := lt_length found
  have other : i ∉ positions [(first, seen.length)] := by
    simp [positions]
    omega
  rw [positions_append, List.mem_append, not_or]
  exact ⟨getElem?_concat_iff.mpr (.inl found), absent, other⟩

theorem inside_closes (h : Sound s seen) (waiting : s.opened = first :: others) :
    ∀ p ∈ s.pairs ++ [(first, seen.length)], ∀ k d, p.1 < k → k < p.2 →
      (seen ++ [')'])[k]? = some d → IsParenthesis d →
      ∃ q ∈ s.pairs ++ [(first, seen.length)], k ∈ [q.1, q.2] ∧ p.1 < q.1 ∧ q.2 < p.2 := by
  rw [List.forall_mem_append]
  constructor
  · intro p hp k d low high found parenthesis
    obtain ⟨q, hq, within⟩ := h.inside_concat p hp k d low high found parenthesis
    exact ⟨q, List.mem_append_left _ hq, within⟩
  · refine List.forall_mem_singleton.mpr ?_
    intro k d low high found parenthesis
    have before := (getElem?_concat_iff.mp found).resolve_right fun last => by omega
    obtain ⟨q, hq, hk, behind⟩ := h.behind_first waiting low before parenthesis
    exact ⟨q, List.mem_append_left _ hq, hk, behind, lt_length (h.parentheses q hq).2.2⟩

theorem behind_closes (h : Sound s seen) (waiting : s.opened = first :: others) :
    ∀ i ∈ others, ∀ k d, i < k → (seen ++ [')'])[k]? = some d → IsParenthesis d →
      k ∈ others ∨ ∃ q ∈ s.pairs ++ [(first, seen.length)], k ∈ [q.1, q.2] ∧ i < q.1 := by
  intro i hi k d low found parenthesis
  have below := h.lt_first waiting i hi
  rcases getElem?_concat_iff.mp found with found | ⟨rfl, -⟩
  · have waits : i ∈ s.opened := waiting ▸ List.mem_cons_of_mem _ hi
    -- The parenthesis that is closed now is the only one that waits no longer.
    rcases h.behind i waits k d low found parenthesis with waits | ⟨q, hq, hk⟩
    · rw [waiting] at waits
      rcases List.mem_cons.mp waits with rfl | waits
      · exact .inr ⟨_, List.mem_concat_self, List.mem_cons_self, below⟩
      · exact .inl waits
    · exact .inr ⟨q, List.mem_append_left _ hq, hk⟩
  · exact .inr ⟨_, List.mem_concat_self, List.mem_cons_of_mem _ List.mem_cons_self, below⟩

theorem opening_closes (h : Sound s seen) (waiting : s.opened = first :: others) :
    ∀ k, (seen ++ [')'])[k]? = some '(' →
      k ∈ others ∨ k ∈ positions (s.pairs ++ [(first, seen.length)]) := by
  intro k found
  rw [positions_append, List.mem_append]
  rcases getElem?_concat_iff.mp found with found | ⟨-, other⟩
  · rcases h.opening k found with waits | paired
    · rw [waiting] at waits
      rcases List.mem_cons.mp waits with rfl | waits
      · exact .inr (.inr List.mem_cons_self)
      · exact .inl waits
    · exact .inr (.inl paired)
  · cases other

theorem closes (h : Sound s seen) (waiting : s.opened = first :: others) :
    Sound ⟨s.pairs ++ [(first, seen.length)], others⟩ (seen ++ [')']) where
  toPairing := h.pairing_closes waiting
  waits := h.waits_closes waiting
  sorted := (List.pairwise_cons.mp (waiting ▸ h.sorted)).2
  inside := h.inside_closes waiting
  behind := h.behind_closes waiting
  opening := h.opening_closes waiting

end

theorem next (h : Sound s seen) (c : Char) :
    Sound (s.next seen.length c) (seen ++ [c]) := by
  rcases s.next_cases seen.length c with ⟨rfl, step⟩ | ⟨rfl, none, step⟩ |
    ⟨first, others, rfl, waiting, step⟩ | ⟨plain, step⟩ <;> rw [step]
  · exact h.opens
  · exact h.stray none
  · exact h.closes waiting
  · exact h.plain plain

/-- Whatever is read, the scan tells the truth about it. -/
theorem run (h : Sound s seen) (rest : List Char) :
    Sound (s.run seen.length rest) (seen ++ rest) := by
  induction rest generalizing s seen with
  | nil => rwa [List.append_nil]
  | cons c rest ih =>
    have step := ih (h.next c)
    rwa [List.length_append, List.append_assoc] at step

/-- Behind a waiting parenthesis no closing one is left over, so what is left over is in order. -/
theorem matching (h : Sound s text) : Matching text s.pairs where
  toPairing := h.toPairing
  nested := by
    intro p hp q hq low high
    have opens := (h.parentheses q hq).2.1
    obtain ⟨r, hr, hk, -, behind⟩ := h.inside p hp q.1 '(' low high opens (.inl rfl)
    have same : r.1 = q.1 := by
      rcases List.mem_pair.mp hk with same | same
      · exact same.symm
      · rw [same] at opens
        exact absurd (h.parentheses r hr).2.2 (not_closes opens)
    exact h.eq_of_fst hr hq same ▸ behind
  inside := h.inside
  leftOver := by
    intro i j opens closes hi hj
    have waits := (h.opening i opens).resolve_right hi
    by_contra after
    have low : i < j := by
      refine Nat.lt_of_le_of_ne (Nat.le_of_not_lt after) ?_
      rintro rfl
      exact not_closes opens closes
    rcases h.behind i waits j ')' low closes (.inr rfl) with waits | ⟨q, hq, hk, -⟩
    · exact absurd closes (not_closes (h.waits j waits).1)
    · exact hj (mem_positions.mpr ⟨q, hq, hk⟩)

end Sound

/-! ## Depth -/

/-- The depth of the text is the count of parentheses that wait, as long as no closing one is left
over. -/
structure Counted (s : Scan) (seen : List Char) : Prop where
  depth : (∀ k, seen[k]? = some ')' → k ∈ positions s.pairs) →
    depthAfter? 0 seen = some s.opened.length
  stray : ∀ k, seen[k]? = some ')' → k ∉ positions s.pairs → depthAfter? 0 seen = none

theorem counted_start : Counted ⟨[], []⟩ [] where
  depth := fun _ => rfl
  stray := by simp

theorem depthAfter?_concat (seen : List Char) (c : Char) :
    depthAfter? 0 (seen ++ [c]) = (depthAfter? 0 seen).bind fun depth => depthAfter? depth [c] :=
  depthAfter?_append 0 seen [c]

/-- A character that changes no pair and is left over itself at most as a closing parenthesis. -/
theorem Counted.concat (h : Counted s seen) (other : c ≠ ')') {opened : List Nat}
    (step : depthAfter? s.opened.length [c] = some opened.length) :
    Counted ⟨s.pairs, opened⟩ (seen ++ [c]) where
  depth := by
    intro paired
    have before := h.depth fun k found => paired k (getElem?_concat_iff.mpr (.inl found))
    rw [depthAfter?_concat, before, Option.bind_some, step]
  stray := by
    intro k found absent
    have before := (getElem?_concat_iff.mp found).resolve_right fun last => other last.2.symm
    rw [depthAfter?_concat, h.stray k before absent, Option.bind_none]

theorem Counted.stray_next (h : Counted s seen) (sound : Sound s seen) (none : s.opened = []) :
    Counted s (seen ++ [')']) := by
  have absent : seen.length ∉ positions s.pairs := fun found =>
    Nat.lt_irrefl _ (sound.lt_of_mem_positions found)
  have last : (seen ++ [')'])[seen.length]? = some ')' := getElem?_concat_iff.mpr (.inr ⟨rfl, rfl⟩)
  constructor
  · intro paired
    exact absurd (paired _ last) absent
  · intro _ _ _
    rw [depthAfter?_concat]
    by_cases whole : ∀ k, seen[k]? = some ')' → k ∈ positions s.pairs
    · rw [h.depth whole, none]
      rfl
    · simp only [not_forall] at whole
      obtain ⟨k, found, hk⟩ := whole
      rw [h.stray k found hk, Option.bind_none]

theorem Counted.closes {first : Nat} {others : List Nat} (h : Counted s seen)
    (sound : Sound s seen) (waiting : s.opened = first :: others) :
    Counted ⟨s.pairs ++ [(first, seen.length)], others⟩ (seen ++ [')']) := by
  have old {k : Nat} (found : seen[k]? = some ')') :
      k ∈ positions (s.pairs ++ [(first, seen.length)]) ↔ k ∈ positions s.pairs := by
    have opens := (sound.waits_first waiting).1
    have before := lt_length found
    have other : k ≠ first := by
      rintro rfl
      exact not_closes opens found
    rw [positions_append, List.mem_append]
    simp [positions, other, before.ne]
  constructor
  · intro paired
    have before := h.depth fun k found =>
      (old found).mp (paired k (getElem?_concat_iff.mpr (.inl found)))
    rw [depthAfter?_concat, before, waiting]
    rfl
  · intro k found absent
    rcases getElem?_concat_iff.mp found with found | ⟨rfl, -⟩
    · rw [old found] at absent
      rw [depthAfter?_concat, h.stray k found absent, Option.bind_none]
    · rw [positions_append, List.mem_append] at absent
      exact absurd (.inr (List.mem_pair.mpr (.inr rfl))) absent

theorem Counted.next (h : Counted s seen) (sound : Sound s seen) (c : Char) :
    Counted (s.next seen.length c) (seen ++ [c]) := by
  rcases s.next_cases seen.length c with ⟨rfl, step⟩ | ⟨rfl, none, step⟩ |
    ⟨first, others, rfl, waiting, step⟩ | ⟨plain, step⟩ <;> rw [step]
  · exact h.concat (by decide) rfl
  · exact h.stray_next sound none
  · exact h.closes sound waiting
  · obtain ⟨opens, closes⟩ := not_or.mp plain
    exact h.concat closes (by simp [depthAfter?, opens, closes])

theorem Counted.run (h : Counted s seen) (sound : Sound s seen) (rest : List Char) :
    Counted (s.run seen.length rest) (seen ++ rest) := by
  induction rest generalizing s seen with
  | nil => rwa [List.append_nil]
  | cons c rest ih =>
    have step := ih (h.next sound c) (sound.next c)
    rwa [List.length_append, List.append_assoc] at step

/-- All parentheses have their partners if none waits and no closing one was left over. -/
theorem Counted.balanced_iff (h : Counted s text) (sound : Sound s text) :
    (∀ k c, text[k]? = some c → IsParenthesis c → k ∈ positions s.pairs) ↔ Balanced text := by
  constructor
  · intro paired
    have none : s.opened = [] := by
      rw [List.eq_nil_iff_forall_not_mem]
      intro i hi
      obtain ⟨found, absent⟩ := sound.waits i hi
      exact absent (paired i '(' found (.inl rfl))
    rw [Balanced, h.depth fun k found => paired k ')' found (.inr rfl), none]
    rfl
  · intro balanced
    have closing : ∀ k, text[k]? = some ')' → k ∈ positions s.pairs := by
      intro k found
      by_contra absent
      rw [Balanced, h.stray k found absent] at balanced
      cases balanced
    have none : s.opened = [] := by
      rw [Balanced, h.depth closing] at balanced
      exact List.length_eq_zero_iff.mp (Option.some.inj balanced)
    rintro k c found (rfl | rfl)
    · have waits := sound.opening k found
      rw [none] at waits
      exact waits.resolve_left List.not_mem_nil
    · exact closing k found

end Scan

/-! ## Groups -/

/-- The pairs that the scan of a text finds. -/
def pairsOf (text : List Char) : List (Nat × Nat) :=
  (Scan.run ⟨[], []⟩ 0 text).pairs

theorem positions_pairsOf (text : List Char) : positions (pairsOf text) = partners 0 [] text :=
  Scan.positions_run ⟨[], []⟩ 0 text

theorem matching_pairsOf (text : List Char) : Matching text (pairsOf text) :=
  (Scan.sound_start.run text).matching

/-- The parentheses that become groups are the ends of the pairs. -/
theorem optionalGroups_eq_grouped (text : List Char) :
    optionalGroups text = grouped text (pairsOf text) := by
  have pairing := (matching_pairsOf text).toPairing
  apply List.flatMap_congr
  rintro ⟨c, k⟩ hc
  have found : text[k]? = some c := List.mk_mem_zipIdx_iff_getElem?.mp hc
  have member : (partners 0 [] text).contains k = true ↔
      k ∈ (pairsOf text).map Prod.fst ∨ k ∈ (pairsOf text).map Prod.snd := by
    rw [List.contains_iff_mem, ← positions_pairsOf, mem_positions_iff]
  dsimp only
  by_cases first : k ∈ (pairsOf text).map Prod.fst
  · obtain rfl : c = '(' := Option.some.inj (found.symm.trans (pairing.opens first))
    rw [member.mpr (.inl first), if_pos first]
    rfl
  · rw [if_neg first]
    by_cases second : k ∈ (pairsOf text).map Prod.snd
    · obtain rfl : c = ')' := Option.some.inj (found.symm.trans (pairing.closes second))
      rw [member.mpr (.inr second), if_pos second]
      rfl
    · have absent : (partners 0 [] text).contains k = false :=
        Bool.eq_false_iff.mpr (mt member.mp (not_or.mpr ⟨first, second⟩))
      rw [absent, if_neg second]
      rfl

/-- The groups of a text are made of a matching, which is as large as any choice of pairs, and of
all its parentheses exactly if it is balanced. -/
theorem optionalGroups_matching (text : List Char) :
    ∃ pairs, Matching text pairs ∧
      (∀ others, Pairing text others → others.length ≤ pairs.length) ∧
      optionalGroups text = grouped text pairs ∧
      ((∀ k c, text[k]? = some c → IsParenthesis c → k ∈ positions pairs) ↔ Balanced text) := by
  have matching := matching_pairsOf text
  refine ⟨pairsOf text, matching, ?_, optionalGroups_eq_grouped text, ?_⟩
  · intro others other
    exact matching.length_le other
  · exact (Scan.counted_start.run Scan.sound_start text).balanced_iff (Scan.sound_start.run text)

-- Only the inner pair is a group: one parenthesis closes nothing, and one stays open.
example : String.ofList (optionalGroups ")((a)b".toList) = ")((?:a)?b" := by decide +kernel

end FragmentRouting.Template
