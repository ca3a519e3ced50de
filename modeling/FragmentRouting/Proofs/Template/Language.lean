import FragmentRouting.Pattern
import FragmentRouting.Proofs.Template.Attempts
import FragmentRouting.Proofs.Template.Spelling

/-!
# The language of a template

The attempts on the items that a template spells are the readings of the template, so a pattern
matches a fragment exactly if some reading spells its path. What stands behind the path is a query,
which begins with a question mark and lies on one line.
-/

namespace FragmentRouting.Template

open Text (isWord)

/-! ## What an atom can read -/

theorem le_length_takeWhile_iff {p : Char → Bool} {text : List Char} {n : Nat} :
    n ≤ (text.takeWhile p).length ↔ n ≤ text.length ∧ ∀ c ∈ text.take n, p c = true := by
  induction text generalizing n with
  | nil => simp
  | cons c rest ih =>
    cases n with
    | zero => simp
    | succ n => cases h : p c <;> simp [h, ih]

/-- The prefixes of a run that are not shorter than `low`, told by length or as a split of the
text. -/
theorem exists_run_iff {p : Char → Bool} {text : List Char} {low : Nat}
    {goal : List Char → List Char → Prop} :
    (∃ n, (low ≤ n ∧ n ≤ (text.takeWhile p).length) ∧ goal (text.take n) (text.drop n)) ↔
      ∃ word left, text = word ++ left ∧ low ≤ word.length ∧ (∀ c ∈ word, p c = true) ∧
        goal word left := by
  constructor
  · rintro ⟨n, ⟨hlow, hn⟩, hgoal⟩
    obtain ⟨inside, all⟩ := le_length_takeWhile_iff.mp hn
    have length_eq : (text.take n).length = n := by
      rw [List.length_take]
      omega
    exact ⟨text.take n, text.drop n, (List.take_append_drop n text).symm, by omega, all, hgoal⟩
  · rintro ⟨word, left, rfl, hlow, all, hgoal⟩
    refine ⟨word.length, ⟨hlow, le_length_takeWhile_iff.mpr ⟨by simp, ?_⟩⟩, ?_⟩
    · simpa using all
    · simpa using hgoal

theorem mem_attempts_char {c : Char} {text : List Char} {t : Attempt} :
    t ∈ (Atom.char c).attempts text ↔ ∃ left, text = c :: left ∧ t = ⟨[], [], left⟩ := by
  cases text with
  | nil => simp [Atom.attempts, Atom.lengths]
  | cons d rest =>
    by_cases h : d = c
    · simp [Atom.attempts, Atom.lengths, Atom.choices, Atom.captures, h]
    · simp [Atom.attempts, Atom.lengths, h]

theorem mem_attempts_segment {text : List Char} {t : Attempt} :
    t ∈ Atom.segment.attempts text ↔ ∃ word left, text = word ++ left ∧ word ≠ [] ∧
      '/' ∉ word ∧ '?' ∉ word ∧ t = ⟨[.segment word], [some (String.ofList word)], left⟩ := by
  have run := @exists_run_iff (fun c => c ≠ '/' && c ≠ '?') text 1 fun word left =>
    ⟨[.segment word], [some (String.ofList word)], left⟩ = t
  have lengths (n : Nat) : n ∈ Atom.segment.lengths text ↔
      1 ≤ n ∧ n ≤ (text.takeWhile fun c => c ≠ '/' && c ≠ '?').length := by
    simp only [Atom.lengths, segmentRun, List.mem_reverse, List.mem_range'_1]
    omega
  have marks (word : List Char) : (∀ c ∈ word, (decide (c ≠ '/') && decide (c ≠ '?')) = true) ↔
      '/' ∉ word ∧ '?' ∉ word := by
    simp only [Bool.and_eq_true, decide_eq_true_eq]
    constructor
    · intro h
      exact ⟨fun hm => (h _ hm).1 rfl, fun hm => (h _ hm).2 rfl⟩
    · rintro ⟨hslash, hmark⟩ c hc
      exact ⟨fun e => hslash (e ▸ hc), fun e => hmark (e ▸ hc)⟩
  simp only [Atom.attempts, List.mem_map, lengths, Atom.choices, Atom.captures]
  rw [run]
  simp only [marks, Nat.succ_le_iff, List.length_pos_iff, and_assoc, @eq_comm _ t]

theorem mem_attempts_splat {text : List Char} {t : Attempt} :
    t ∈ Atom.splat.attempts text ↔ ∃ word left, text = word ++ left ∧ '?' ∉ word ∧
      t = ⟨[.splat word], [some (String.ofList word)], left⟩ := by
  have run := @exists_run_iff (fun c => decide (c ≠ '?')) text 0 fun word left =>
    ⟨[.splat word], [some (String.ofList word)], left⟩ = t
  have lengths (n : Nat) : n ∈ Atom.splat.lengths text ↔
      0 ≤ n ∧ n ≤ (text.takeWhile fun c => decide (c ≠ '?')).length := by
    simp only [Atom.lengths, splatRun, List.mem_range]
    omega
  have marks (word : List Char) : (∀ c ∈ word, decide (c ≠ '?') = true) ↔ '?' ∉ word := by
    simp only [decide_eq_true_eq]
    exact ⟨fun h hm => h _ hm rfl, fun h c hc e => h (e ▸ hc)⟩
  simp only [Atom.attempts, List.mem_map, lengths, Atom.choices, Atom.captures]
  rw [run]
  simp only [marks, Nat.zero_le, true_and, @eq_comm _ t]

/-! ## Attempts and readings -/

theorem mem_attempts_cons {text : List Char} {item : Item} {items : List Item} {t : Attempt} :
    t ∈ attempts text (item :: items) ↔
      ∃ first ∈ itemAttempts text item, ∃ more ∈ attempts first.left items,
        t = first.after more := by
  simp [attempts, eq_comm]

/-- Every attempt on the items of a template is a reading of the template. -/
theorem Spells.exists_reading {template : List Char} {items : List Item}
    (h : Spells template items) {text : List Char} {t : Attempt} (ht : t ∈ attempts text items) :
    ∃ path, Reading template t.choices t.slots path ∧ text = path ++ t.left := by
  induction h generalizing text t with
  | nil =>
    obtain rfl : t = ⟨[], [], text⟩ := by simpa [attempts] using ht
    exact ⟨[], .nil, rfl⟩
  | literal plain _ ih =>
    obtain ⟨first, hfirst, more, hmore, rfl⟩ := mem_attempts_cons.mp ht
    obtain ⟨left, rfl, rfl⟩ := mem_attempts_char.mp hfirst
    obtain ⟨path, hpath, rfl⟩ := ih hmore
    exact ⟨_ :: path, .literal plain hpath, rfl⟩
  | segment named _ ih =>
    obtain ⟨first, hfirst, more, hmore, rfl⟩ := mem_attempts_cons.mp ht
    obtain ⟨word, left, rfl, nonempty, hslash, hmark, rfl⟩ := mem_attempts_segment.mp hfirst
    obtain ⟨path, hpath, rfl⟩ := ih hmore
    exact ⟨word ++ path, .segment named nonempty hslash hmark hpath, by simp [Attempt.after]⟩
  | splat named _ ih =>
    obtain ⟨first, hfirst, more, hmore, rfl⟩ := mem_attempts_cons.mp ht
    obtain ⟨word, left, rfl, hmark, rfl⟩ := mem_attempts_splat.mp hfirst
    obtain ⟨path, hpath, rfl⟩ := ih hmore
    exact ⟨word ++ path, .splat named hmark hpath, by simp [Attempt.after]⟩
  | group hbody _ ih ih' =>
    obtain ⟨first, hfirst, more, hmore, rfl⟩ := mem_attempts_cons.mp ht
    obtain ⟨path, hpath, rest⟩ := ih' hmore
    simp only [itemAttempts, List.mem_append, List.mem_map, List.mem_singleton] at hfirst
    rcases hfirst with ⟨inside, hinside, rfl⟩ | rfl
    · obtain ⟨inner, hinner, rfl⟩ := ih hinside
      refine ⟨inner ++ path, .kept hinner hpath, ?_⟩
      have rest : inside.left = path ++ more.left := rest
      simp [Attempt.after, rest]
    · refine ⟨path, ?_, rest⟩
      rw [hbody.absentSlots_eq]
      exact .omitted hbody.wellFormed hpath

/-- Every reading of a template is an attempt on its items, whatever is left behind the path. -/
theorem Reading.exists_attempt {template path : List Char} {choices : List Choice}
    {slots : List Slot} (h : Reading template choices slots path) :
    ∃ items, Spells template items ∧
      ∀ left, (⟨choices, slots, left⟩ : Attempt) ∈ attempts (path ++ left) items := by
  induction h with
  | nil => exact ⟨[], .nil, fun left => by simp [attempts]⟩
  | literal plain _ ih =>
    obtain ⟨items, hs, hmem⟩ := ih
    refine ⟨_, .literal plain hs, fun left => mem_attempts_cons.mpr ?_⟩
    exact ⟨_, mem_attempts_char.mpr ⟨_, rfl, rfl⟩, _, hmem left, rfl⟩
  | segment named nonempty hslash hmark _ ih =>
    obtain ⟨items, hs, hmem⟩ := ih
    refine ⟨_, .segment named hs, fun left => mem_attempts_cons.mpr ?_⟩
    exact ⟨_, mem_attempts_segment.mpr ⟨_, _, List.append_assoc .., nonempty, hslash, hmark, rfl⟩,
      _, hmem left, rfl⟩
  | splat named hmark _ ih =>
    obtain ⟨items, hs, hmem⟩ := ih
    refine ⟨_, .splat named hs, fun left => mem_attempts_cons.mpr ?_⟩
    exact ⟨_, mem_attempts_splat.mpr ⟨_, _, List.append_assoc .., hmark, rfl⟩, _, hmem left, rfl⟩
  | @kept _ _ inner path _ _ _ _ _ _ ih ih' =>
    obtain ⟨items, hs, hmem⟩ := ih
    obtain ⟨items', hs', hmem'⟩ := ih'
    refine ⟨_, .group hs hs', fun left => mem_attempts_cons.mpr ?_⟩
    have inside := hmem (path ++ left)
    rw [← List.append_assoc] at inside
    exact ⟨_, List.mem_append_left _ (List.mem_map.mpr ⟨_, inside, rfl⟩), _, hmem' left, rfl⟩
  | omitted hbody _ ih =>
    obtain ⟨items, hs, hmem⟩ := ih
    obtain ⟨inner, hinner⟩ := wellFormed_iff_spells.mp hbody
    refine ⟨_, .group hinner hs, fun left => mem_attempts_cons.mpr ?_⟩
    refine ⟨_, List.mem_append_right _ (List.mem_singleton_self _), _, hmem left, ?_⟩
    rw [hinner.absentSlots_eq]
    rfl

theorem Spells.mem_attempts_iff {template : List Char} {items : List Item}
    (h : Spells template items) {text : List Char} {t : Attempt} :
    t ∈ attempts text items ↔
      ∃ path, Reading template t.choices t.slots path ∧ text = path ++ t.left := by
  constructor
  · exact h.exists_reading
  · rintro ⟨path, hpath, rfl⟩
    obtain ⟨items', h', hmem⟩ := hpath.exists_attempt
    rw [h.unique h']
    exact hmem t.left

/-! ## Patterns -/

/-- What is left behind a path is nothing, or a question mark and the rest of the line. -/
theorem query?_eq_some_iff {left : List Char} {query : Option String} :
    query? left = some query ↔
      (left = [] ∧ query = none) ∨
        ∃ rest, left = '?' :: rest ∧ '\n' ∉ rest ∧ query = some (String.ofList left) := by
  cases left with
  | nil => simp [query?, eq_comm]
  | cons c rest =>
    simp only [query?, List.contains_eq_mem, Bool.not_eq_true', decide_eq_false_iff_not]
    split
    · rename_i h
      simp [h, eq_comm]
    · rename_i h
      constructor
      · intro e
        cases e
      · rintro (⟨e, -⟩ | ⟨_, e, hline, -⟩)
        · cases e
        · cases e
          exact absurd ⟨rfl, hline⟩ h

theorem Attempt.captures?_eq_some_iff {t : Attempt} {captures : Captures} :
    t.captures? = some captures ↔
      t.slots = captures.slots ∧ query? t.left = some captures.query := by
  simp only [Attempt.captures?, Option.map_eq_some_iff]
  constructor
  · rintro ⟨query, hquery, rfl⟩
    exact ⟨rfl, hquery⟩
  · rintro ⟨hslots, hquery⟩
    exact ⟨captures.query, hquery, by rw [hslots]⟩

/-- The pattern of a template that spells items takes the first attempt that leaves a query. -/
theorem Spells.captures?_eq {template : String} {items : List Item}
    (h : Spells template.toList items) (named : Option Bool) (config : Config)
    (fragment : String) :
    (Pattern.ofTemplate template named config).captures? fragment =
      (attempts fragment.toList items).findSome? Attempt.captures? := by
  have compiled : (Pattern.ofTemplate template named config).items = some items := h.items?_eq
  simp only [Pattern.captures?, compiled, Option.bind_some]
  exact match?_eq_findSome? items fragment

/-- A pattern matches exactly the paths that its template denotes, alone or with a query of one
line behind a question mark. -/
theorem isMatch_iff_denotes (template : String) (named : Option Bool) (config : Config)
    (wf : WellFormed template.toList) (fragment : String) :
    (Pattern.ofTemplate template named config).isMatch fragment = true ↔
      ∃ path : String, Denotes template.toList path.toList ∧
        (fragment = path ∨
          ∃ query : String, '\n' ∉ query.toList ∧ fragment = path ++ "?" ++ query) := by
  obtain ⟨items, hs⟩ := wellFormed_iff_spells.mp wf
  rw [Pattern.isMatch, hs.captures?_eq, List.findSome?_isSome_iff]
  constructor
  · rintro ⟨t, ht, hsome⟩
    obtain ⟨captures, hc⟩ := Option.isSome_iff_exists.mp hsome
    obtain ⟨path, hpath, whole⟩ := hs.mem_attempts_iff.mp ht
    refine ⟨String.ofList path, ⟨t.choices, t.slots, by simpa using hpath⟩, ?_⟩
    have whole : fragment = String.ofList path ++ String.ofList t.left := by
      rw [← String.ofList_append, ← whole, String.ofList_toList]
    rcases query?_eq_some_iff.mp (Attempt.captures?_eq_some_iff.mp hc).2 with
      ⟨hleft, -⟩ | ⟨rest, hleft, hline, -⟩
    · exact .inl (by simpa [hleft] using whole)
    · refine .inr ⟨String.ofList rest, by simpa using hline, ?_⟩
      rw [whole, hleft, String.append_assoc, ← List.singleton_append, String.ofList_append]
  · rintro ⟨path, ⟨choices, slots, hpath⟩, hfragment⟩
    have exists_left : ∃ left, fragment.toList = path.toList ++ left ∧
        (query? left).isSome = true := by
      rcases hfragment with rfl | ⟨query, hline, rfl⟩
      · exact ⟨[], by simp, rfl⟩
      · refine ⟨'?' :: query.toList, by simp [String.toList_append], ?_⟩
        simp [query?, hline]
    obtain ⟨left, whole, hleft⟩ := exists_left
    refine ⟨⟨choices, slots, left⟩, hs.mem_attempts_iff.mpr ⟨path.toList, hpath, whole⟩, ?_⟩
    simpa [Attempt.captures?] using hleft

theorem isMatch_iff_denotes_nested :
    WellFormed "a.b(/:c(*d))".toList ∧
      ∃ path : String, Denotes "a.b(/:c(*d))".toList path.toList ∧
        ("a.b/x?y=1" = path ∨
          ∃ query : String, '\n' ∉ query.toList ∧ "a.b/x?y=1" = path ++ "?" ++ query) :=
  ⟨by decide, (isMatch_iff_denotes "a.b(/:c(*d))" none .standard (by decide) "a.b/x?y=1").mp
    (by decide +kernel)⟩

end FragmentRouting.Template
