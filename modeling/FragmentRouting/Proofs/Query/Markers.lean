import FragmentRouting.Proofs.Query.Flattening

/-!
# Removing list markers

A key loses the list markers that are found in one pass. Removing one can bring the characters on
both sides of it together, and they can be a marker again, which stays.

* `eq_nil_of_overlap`: markers do not overlap;
* `markerInduction`: a text is read marker by marker and character by character;
* `Spread`: a word with rows of markers between its characters;
* `marked_unmarked_iff`: a marker stays exactly if it was spread in the key.
-/

namespace FragmentRouting.Query

/-- A text with a list marker in it. -/
def Marked (text : List Char) : Prop :=
  ∃ marker ∈ markers, marker <:+: text

instance (text : List Char) : Decidable (Marked text) :=
  inferInstanceAs (Decidable (∃ marker ∈ markers, marker <:+: text))

variable {marker other text word key : List Char}

/-! ## Markers -/

theorem two_le_length (h : marker ∈ markers) : 2 ≤ marker.length := by
  revert marker
  decide

theorem marker_ne_nil (h : marker ∈ markers) : marker ≠ [] := by
  rintro rfl
  exact absurd (two_le_length h) (by decide)

theorem markers_prefixFree (h : marker ∈ markers) (h' : other ∈ markers)
    (front : marker <+: other) : marker = other := by
  have apart : ∀ marker ∈ markers, ∀ other ∈ markers, marker <+: other → marker = other := by
    decide
  exact apart marker h other h' front

/-- What begins in front of a cut ends there too, or goes on behind it. -/
theorem prefix_append_cases {first second : List Char} (h : word <+: first ++ second) :
    word <+: first ∨ ∃ behind, behind ≠ [] ∧ behind <+: second ∧ word = first ++ behind := by
  obtain ⟨rest, hrest⟩ := h
  rcases List.append_eq_append_iff.mp hrest with ⟨more, rfl, -⟩ | ⟨behind, rfl, rfl⟩
  · exact .inl (List.prefix_append _ _)
  · by_cases none : behind = []
    · exact .inl (by rw [none, List.append_nil])
    · exact .inr ⟨behind, none, List.prefix_append _ _, rfl⟩

/-- Where a marker begins, no other one goes on. -/
theorem eq_nil_of_overlap {before behind : List Char} (h : before ++ behind ∈ markers)
    (h' : other ∈ markers) (present : behind ≠ []) (goesOn : behind <+: text)
    (begins : other <+: text) : before = [] := by
  have apart : ∀ marker ∈ markers, ∀ tail ∈ marker.tails, ∀ other ∈ markers,
      tail ≠ [] → tail <+: other ∨ other <+: tail → tail = marker := by
    decide +kernel
  have whole := apart _ h behind (by simp) other h' present
    (List.prefix_or_prefix_of_prefix goesOn begins)
  simpa using whole

/-! ## One pass -/

theorem unmarkedFrom_eq_drop (skipped : Nat) (text : List Char) :
    unmarkedFrom skipped text = unmarked (text.drop skipped) := by
  induction text generalizing skipped with
  | nil => cases skipped <;> rfl
  | cons c rest ih =>
    cases skipped with
    | zero => rfl
    | succ skipped => rw [unmarkedFrom, ih, List.drop_succ_cons]

theorem markerLength_marker (h : marker ∈ markers) (rest : List Char) :
    markerLength (marker ++ rest) = marker.length := by
  have cases : ∀ marker ∈ markers, marker = "[]".toList ∨ marker = "%5B%5D".toList ∨
      marker = "%5B%5d".toList ∨ marker = "%5b%5D".toList ∨ marker = "%5b%5d".toList := by
    decide
  rcases cases marker h with rfl | rfl | rfl | rfl | rfl <;> simp [markerLength]

/-- A marker in front is removed. -/
theorem unmarked_marker (h : marker ∈ markers) (rest : List Char) :
    unmarked (marker ++ rest) = unmarked rest := by
  have length := markerLength_marker h rest
  obtain ⟨c, tail, rfl⟩ := List.exists_cons_of_ne_nil (marker_ne_nil h)
  rw [List.cons_append] at length ⊢
  rw [unmarked, unmarkedFrom, length, List.length_cons]
  simp [unmarkedFrom_eq_drop]

theorem unmarked_row {row : List (List Char)} (h : ∀ marker ∈ row, marker ∈ markers)
    (rest : List Char) : unmarked (row.flatten ++ rest) = unmarked rest := by
  induction row with
  | nil => rfl
  | cons marker row ih =>
    obtain ⟨hmarker, hrow⟩ := List.forall_mem_cons.mp h
    rw [List.flatten_cons, List.append_assoc, unmarked_marker hmarker, ih hrow]

/-- A character at which no marker begins is kept. -/
theorem unmarked_cons {c : Char} {rest : List Char}
    (plain : ∀ marker ∈ markers, ¬ marker <+: c :: rest) :
    unmarked (c :: rest) = c :: unmarked rest := by
  have none : markerLength (c :: rest) = 0 := by
    by_contra found
    obtain ⟨marker, hmarker, front⟩ := marker_of_markerLength found
    exact plain marker hmarker front
  simp only [unmarked, unmarkedFrom, none]

/-- A text is a row of markers and of characters at which none begins. -/
@[elab_as_elim]
theorem markerInduction {motive : List Char → Prop} (nil : motive [])
    (marker : ∀ marker ∈ markers, ∀ rest, motive rest → motive (marker ++ rest))
    (plain : ∀ c rest, (∀ marker ∈ markers, ¬ marker <+: c :: rest) → motive rest →
      motive (c :: rest))
    (text : List Char) : motive text := by
  induction hlength : text.length using Nat.strong_induction_on generalizing text with
  | _ length ih =>
    subst hlength
    by_cases begins : ∃ marker ∈ markers, marker <+: text
    · obtain ⟨first, hfirst, rest, rfl⟩ := begins
      have shorter : rest.length < (first ++ rest).length := by
        have := two_le_length hfirst
        rw [List.length_append]
        omega
      exact marker first hfirst rest (ih _ shorter rest rfl)
    · cases text with
      | nil => exact nil
      | cons c rest =>
        simp only [not_exists, not_and] at begins
        exact plain c rest begins (ih _ (Nat.lt_succ_self _) rest rfl)

/-- If no marker lies across a cut, both sides are read by themselves. -/
theorem unmarked_append {first second : List Char}
    (whole : ∀ before behind, before ++ behind ∈ markers → before <:+ first →
      behind <+: second → behind ≠ [] → before = []) :
    unmarked (first ++ second) = unmarked first ++ unmarked second := by
  induction first using markerInduction with
  | nil => rfl
  | marker marker hmarker rest ih =>
    rw [List.append_assoc, unmarked_marker hmarker, unmarked_marker hmarker, ih]
    intro before behind hmarker hbefore
    exact whole before behind hmarker (hbefore.trans (List.suffix_append _ _))
  | plain c rest plain ih =>
    have plain' : ∀ marker ∈ markers, ¬ marker <+: c :: (rest ++ second) := by
      intro marker hmarker front
      rw [← List.cons_append] at front
      rcases prefix_append_cases front with inside | ⟨behind, present, hbehind, rfl⟩
      · exact plain marker hmarker inside
      · cases whole _ behind hmarker List.suffix_rfl hbehind present
    rw [List.cons_append, unmarked_cons plain', unmarked_cons plain, ih, List.cons_append]
    intro before behind hmarker hbefore
    exact whole before behind hmarker (hbefore.trans (List.suffix_cons _ _))

/-- What is kept at the end is what a last part of the text keeps. -/
theorem exists_suffix_of_unmarked {front back : List Char} (h : unmarked text = front ++ back) :
    ∃ rest, rest <:+ text ∧ unmarked rest = back := by
  induction text using markerInduction generalizing front with
  | nil =>
    obtain ⟨-, rfl⟩ := List.append_eq_nil_iff.mp h.symm
    exact ⟨[], List.suffix_rfl, rfl⟩
  | marker marker hmarker text ih =>
    rw [unmarked_marker hmarker] at h
    obtain ⟨rest, hrest, kept⟩ := ih h
    exact ⟨rest, hrest.trans (List.suffix_append _ _), kept⟩
  | plain c text plain ih =>
    cases front with
    | nil => exact ⟨c :: text, List.suffix_rfl, h⟩
    | cons d front =>
      rw [unmarked_cons plain, List.cons_append] at h
      obtain ⟨rest, hrest, kept⟩ := ih (List.tail_eq_of_cons_eq h)
      exact ⟨rest, hrest.trans (List.suffix_cons _ _), kept⟩

/-! ## Spread words -/

/-- The text is the word with rows of markers between its characters. -/
inductive Spread : List Char → List Char → Prop
  | last (c : Char) : Spread [c] [c]
  | next {c : Char} {row : List (List Char)} {word text : List Char}
      (hrow : ∀ marker ∈ row, marker ∈ markers) (h : Spread word text) :
      Spread (c :: word) (c :: (row.flatten ++ text))

namespace Spread

theorem ne_nil (h : Spread word text) : word ≠ [] := by
  cases h <;> exact List.cons_ne_nil _ _

/-- A spread word is the word itself, or has a marker behind a first part of the word. -/
theorem eq_or_exists_marker (h : Spread word text) :
    text = word ∨ ∃ front marker rest, front ≠ [] ∧ front <+: word ∧ front ≠ word ∧
      marker ∈ markers ∧ text = front ++ (marker ++ rest) := by
  induction h with
  | last c => exact .inl rfl
  | @next c row word text hrow h ih =>
    cases row with
    | nil =>
      rcases ih with rfl | ⟨front, marker, rest, -, hfront, part, hmarker, rfl⟩
      · exact .inl rfl
      · refine .inr ⟨c :: front, marker, rest, List.cons_ne_nil _ _, ?_, ?_, hmarker, rfl⟩
        · exact List.cons_prefix_cons.mpr ⟨rfl, hfront⟩
        · intro same
          exact part (List.tail_eq_of_cons_eq same)
    | cons marker row =>
      obtain ⟨hmarker, -⟩ := List.forall_mem_cons.mp hrow
      refine .inr ⟨[c], marker, row.flatten ++ text, List.cons_ne_nil _ _, ?_, ?_, hmarker, ?_⟩
      · exact List.cons_prefix_cons.mpr ⟨rfl, List.nil_prefix⟩
      · intro same
        exact h.ne_nil (List.tail_eq_of_cons_eq same).symm
      · simp

/-- The last part of a marker that stands at the front of a spread word lies in a first part of the
word, since behind that a marker begins. -/
theorem prefix_of_overlap (h : Spread word text) (apart : text ≠ word)
    (before : List Char) {behind rest : List Char} (hmarker : before ++ behind ∈ markers)
    (present : behind ≠ []) (goesOn : behind <+: text ++ rest) :
    behind <+: word ∧ behind ≠ word := by
  rcases h.eq_or_exists_marker with same | ⟨front, marker, more, some, hfront, part, begins, rfl⟩
  · exact absurd same apart
  · rw [List.append_assoc, List.append_assoc] at goesOn
    have inside : behind <+: front := by
      rcases prefix_append_cases goesOn with inside | ⟨tail, hpresent, htail, rfl⟩
      · exact inside
      · rw [← List.append_assoc] at hmarker
        have none := eq_nil_of_overlap hmarker begins hpresent htail (List.prefix_append _ _)
        exact absurd (List.append_eq_nil_iff.mp none).2 some
    refine ⟨inside.trans hfront, ?_⟩
    rintro rfl
    exact part (hfront.eq_of_length_le inside.length_le)

/-- At the front of a spread last part of a marker no marker begins, unless the part is a marker. -/
theorem not_begins (h : Spread word text) {before : List Char}
    (hword : before ++ word ∈ markers) (apart : before = [] → text ≠ word) (rest : List Char) :
    ∀ marker ∈ markers, ¬ marker <+: text ++ rest := by
  intro marker hmarker begins
  by_cases same : text = word
  · subst same
    have whole := eq_nil_of_overlap hword hmarker h.ne_nil (List.prefix_append _ _) begins
    exact apart whole rfl
  · obtain ⟨inside, part⟩ := h.prefix_of_overlap same [] hmarker (marker_ne_nil hmarker) begins
    obtain rfl := eq_nil_of_overlap hword hmarker h.ne_nil List.prefix_rfl inside
    exact part (markers_prefixFree hmarker hword inside)

/-- The rows of markers are removed, and the last part of a marker that was spread stays. -/
theorem unmarked_append (h : Spread word text) (before : List Char)
    (hword : before ++ word ∈ markers) (apart : before = [] → text ≠ word) (rest : List Char) :
    unmarked (text ++ rest) = word ++ unmarked rest := by
  have plain := h.not_begins hword apart rest
  -- Each character of the word goes over to the part before it, so only the whole word can be a
  -- marker that was not spread.
  induction h generalizing before with
  | last c => exact unmarked_cons plain
  | @next c row word text hrow h ih =>
    have hword : (before ++ [c]) ++ word ∈ markers := by
      rwa [List.append_assoc, List.singleton_append]
    have later : before ++ [c] = [] → text ≠ word := fun none =>
      absurd (List.append_eq_nil_iff.mp none).2 (List.cons_ne_nil _ _)
    rw [List.cons_append] at plain ⊢
    rw [unmarked_cons plain, List.append_assoc, unmarked_row hrow,
      ih (before ++ [c]) hword later (h.not_begins hword later rest), List.cons_append]

end Spread

/-- What is kept was spread in the text, and no marker begins where it begins. -/
theorem exists_spread {back : List Char} (h : unmarked text = word ++ back) (some : word ≠ []) :
    ∃ (row : List (List Char)) (inside rest : List Char), (∀ marker ∈ row, marker ∈ markers) ∧
      text = row.flatten ++ (inside ++ rest) ∧ Spread word inside ∧
      ∀ marker ∈ markers, ¬ marker <+: inside := by
  induction text using markerInduction generalizing word with
  | nil => exact absurd (List.append_eq_nil_iff.mp h.symm).1 some
  | marker marker hmarker text ih =>
    rw [unmarked_marker hmarker] at h
    obtain ⟨row, inside, rest, hrow, rfl, spread, plain⟩ := ih h some
    refine ⟨marker :: row, inside, rest, ?_, ?_, spread, plain⟩
    · exact List.forall_mem_cons.mpr ⟨hmarker, hrow⟩
    · rw [List.flatten_cons, List.append_assoc]
  | plain c text plain ih =>
    obtain ⟨d, word, rfl⟩ := List.exists_cons_of_ne_nil some
    rw [unmarked_cons plain, List.cons_append] at h
    obtain ⟨rfl, kept⟩ := List.cons_eq_cons.mp h
    -- What begins inside the part that is cut out begins in the text.
    have begins {inside rest : List Char} (cut : text = inside ++ rest) :
        ∀ marker ∈ markers, ¬ marker <+: c :: inside := by
      intro marker hmarker front
      exact plain marker hmarker (front.trans ⟨rest, by rw [cut, List.cons_append]⟩)
    by_cases last : word = []
    · subst last
      exact ⟨[], [c], text, List.forall_mem_nil _, rfl, .last c, begins (List.nil_append _).symm⟩
    · obtain ⟨row, inside, rest, hrow, rfl, spread, -⟩ := ih kept last
      refine ⟨[], c :: (row.flatten ++ inside), rest, List.forall_mem_nil _, ?_, ?_, ?_⟩
      · simp
      · exact .next hrow spread
      · exact begins (List.append_assoc _ _ _).symm

/-! ## Keys -/

/-- A key in which a marker is spread, with other markers between its characters. -/
def Wraps (key : List Char) : Prop :=
  ∃ marker ∈ markers, ∃ inside, inside <:+: key ∧ Spread marker inside ∧ inside ≠ marker

/-- Removing its markers leaves one in a key exactly if the key has a marker around others. -/
theorem marked_unmarked_iff : Marked (unmarked key) ↔ Wraps key := by
  constructor
  · rintro ⟨marker, hmarker, front, back, kept⟩
    rw [List.append_assoc] at kept
    obtain ⟨behind, hbehind, kept⟩ := exists_suffix_of_unmarked kept.symm
    obtain ⟨row, inside, rest, -, rfl, spread, plain⟩ :=
      exists_spread kept (marker_ne_nil hmarker)
    refine ⟨marker, hmarker, inside, ?_, spread, ?_⟩
    · exact List.IsInfix.trans ⟨row.flatten, rest, List.append_assoc _ _ _⟩ hbehind.isInfix
    · rintro rfl
      exact plain _ hmarker List.prefix_rfl
  · rintro ⟨marker, hmarker, inside, ⟨front, back, rfl⟩, spread, apart⟩
    refine ⟨marker, hmarker, unmarked front, unmarked back, ?_⟩
    rw [List.append_assoc, List.append_assoc, unmarked_append,
      spread.unmarked_append [] hmarker fun _ => apart]
    -- A marker that lay across the front of the spread one would go on inside it.
    intro before behind straddles _ goesOn present
    obtain ⟨inside, -⟩ := spread.prefix_of_overlap apart before straddles present goesOn
    exact eq_nil_of_overlap straddles hmarker present inside List.prefix_rfl

/-- A word without the mark lies in one of the pieces between the marks. -/
theorem infix_iff_exists_piece {mark : Char} (h : mark ∉ word) :
    word <:+: text ↔ ∃ piece ∈ text.splitOn mark, word <:+: piece := by
  have joined (pieces : List (List Char)) (some : pieces ≠ []) :
      word <:+: [mark].intercalate pieces ↔ ∃ piece ∈ pieces, word <:+: piece := by
    induction pieces with
    | nil => exact absurd rfl some
    | cons piece more ih =>
      cases more with
      | nil => simp
      | cons next more =>
        rw [List.intercalate_cons_cons, List.exists_mem_cons_iff, ← ih (List.cons_ne_nil _ _)]
        constructor
        · intro found
          rw [List.append_assoc, List.singleton_append] at found
          exact infix_of_append_cons h found
        · rintro (found | found)
          · exact found.trans (by rw [List.append_assoc]; exact List.infix_append' [] _ _)
          · exact found.trans (List.suffix_append _ _).isInfix
  rw [← joined _ (List.splitOn_ne_nil mark text), List.intercalate_splitOn]

/-- A name on the path of a key has a marker exactly if the key has one around others. -/
theorem exists_marked_iff : (∃ name ∈ pathOf key, Marked name.toList) ↔ Wraps key := by
  have noPoint : ∀ marker ∈ markers, '.' ∉ marker := by decide
  rw [← marked_unmarked_iff]
  constructor
  · rintro ⟨name, hname, marker, hmarker, found⟩
    obtain ⟨piece, hpiece, rfl⟩ := List.mem_map.mp hname
    rw [String.toList_ofList] at found
    refine ⟨marker, hmarker, ?_⟩
    exact (infix_iff_exists_piece (noPoint marker hmarker)).mpr ⟨piece, hpiece, found⟩
  · rintro ⟨marker, hmarker, found⟩
    obtain ⟨piece, hpiece, found⟩ := (infix_iff_exists_piece (noPoint marker hmarker)).mp found
    refine ⟨String.ofList piece, List.mem_map_of_mem hpiece, marker, hmarker, ?_⟩
    rwa [String.toList_ofList]

end FragmentRouting.Query
