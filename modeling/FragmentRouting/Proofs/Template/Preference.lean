import FragmentRouting.Proofs.Template.Language

/-!
# The preferred reading

A fragment can have several readings. The attempts of a match come in order of preference, so what
a pattern captures is the first reading of the fragment from left to right.
-/

namespace FragmentRouting.Template

/-! ## The order of the attempts -/

/-- One attempt goes before another by its decisions. -/
def Attempt.Before (s t : Attempt) : Prop :=
  Preferred s.choices t.choices

theorem length_take_of_le_run {p : Char → Bool} {text : List Char} {n : Nat}
    (h : n ≤ (text.takeWhile p).length) : (text.take n).length = n := by
  rw [List.length_take]
  exact Nat.min_eq_left (Nat.le_trans h (List.takeWhile_sublist p).length_le)

theorem Atom.pairwise_attempts (a : Atom) (text : List Char) :
    (a.attempts text).Pairwise Attempt.Before := by
  rw [Atom.attempts, List.pairwise_map]
  cases a with
  | char c =>
    simp only [Atom.lengths]
    split <;> simp
  | segment =>
    simp only [Atom.lengths]
    rw [List.pairwise_reverse]
    apply List.Pairwise.imp_of_mem _ (List.pairwise_lt_range' (s := 1))
    intro m n hm hn lt
    simp only [List.mem_range'_1] at hm hn
    have hm' := length_take_of_le_run (show m ≤ (segmentRun text).length by omega)
    have hn' := length_take_of_le_run (show n ≤ (segmentRun text).length by omega)
    exact preferred_of_better (.segment (by omega)) [] []
  | splat =>
    simp only [Atom.lengths]
    apply List.Pairwise.imp_of_mem _ List.pairwise_lt_range
    intro m n hm hn lt
    simp only [List.mem_range] at hm hn
    have hm' := length_take_of_le_run (show m ≤ (splatRun text).length by omega)
    have hn' := length_take_of_le_run (show n ≤ (splatRun text).length by omega)
    exact preferred_of_better (.splat (by omega)) [] []

/-- The order of the attempts on the first item decides, and after it that of the others. -/
theorem pairwise_attempts_cons {text : List Char} {item : Item} {items : List Item}
    (first : (itemAttempts text item).Pairwise Attempt.Before)
    (rest : ∀ left, (attempts left items).Pairwise Attempt.Before) :
    (attempts text (item :: items)).Pairwise Attempt.Before := by
  rw [attempts, List.pairwise_flatMap]
  constructor
  · intro t _
    rw [List.pairwise_map]
    exact (rest t.left).imp fun h => preferred_prefix t.choices h
  · apply first.imp
    intro s t before x hx y hy
    obtain ⟨x, _, rfl⟩ := List.mem_map.mp hx
    obtain ⟨y, _, rfl⟩ := List.mem_map.mp hy
    exact preferred_append before x.choices y.choices

theorem Spells.pairwise_attempts {template : List Char} {items : List Item}
    (h : Spells template items) (text : List Char) :
    (attempts text items).Pairwise Attempt.Before := by
  induction h generalizing text with
  | nil => simp [attempts]
  | literal _ _ ih => exact pairwise_attempts_cons (Atom.pairwise_attempts _ text) ih
  | segment _ _ ih => exact pairwise_attempts_cons (Atom.pairwise_attempts _ text) ih
  | splat _ _ ih => exact pairwise_attempts_cons (Atom.pairwise_attempts _ text) ih
  | group _ _ ih ih' =>
    refine pairwise_attempts_cons ?_ ih'
    rw [itemAttempts, List.pairwise_append, List.pairwise_map]
    refine ⟨(ih text).imp fun h => preferred_prefix [.keep] h, List.pairwise_singleton _ _, ?_⟩
    intro s hs t ht
    obtain ⟨inside, _, rfl⟩ := List.mem_map.mp hs
    obtain rfl := List.mem_singleton.mp ht
    exact preferred_of_better .keep _ _

/-- The first element that a function accepts stands before every other that it accepts. -/
theorem findSome?_first {α β : Type} {R : α → α → Prop} {f : α → Option β} {xs : List α} {b : β}
    (sorted : xs.Pairwise R) (h : xs.findSome? f = some b) :
    ∃ x ∈ xs, f x = some b ∧ ∀ y ∈ xs, (f y).isSome = true → y = x ∨ R x y := by
  obtain ⟨before, x, after, rfl, hx, hbefore⟩ := List.findSome?_eq_some_iff.mp h
  refine ⟨x, by simp, hx, ?_⟩
  intro y hy hsome
  rw [List.pairwise_append, List.pairwise_cons] at sorted
  simp only [List.mem_append, List.mem_cons] at hy
  rcases hy with hy | rfl | hy
  · simp [hbefore y hy] at hsome
  · exact .inl rfl
  · exact .inr (sorted.2.1.1 y hy)

/-! ## Readings of a fragment -/

/-- The characters of a query; an absent one has none. -/
def queryChars (query : Option String) : List Char :=
  (query.map String.toList).getD []

/-- A reading of a template whose path, with a query behind it, is the whole fragment. -/
structure FragmentReading (template fragment : String) (choices : List Choice)
    (slots : List Slot) (path : List Char) (query : Option String) : Prop where
  reading : Reading template.toList choices slots path
  whole : fragment.toList = path ++ queryChars query
  marked : ∀ q, query = some q → ∃ rest, q.toList = '?' :: rest

theorem query?_queryChars {query : Option String}
    (marked : ∀ q, query = some q → ∃ rest, q.toList = '?' :: rest)
    (line : '\n' ∉ queryChars query) : query? (queryChars query) = some query := by
  rw [query?_eq_some_iff]
  cases query with
  | none => exact .inl ⟨rfl, rfl⟩
  | some q =>
    obtain ⟨rest, hrest⟩ := marked q rfl
    simp only [queryChars, Option.map_some, Option.getD_some, hrest, List.mem_cons, not_or] at line
    refine .inr ⟨rest, hrest, line.2, ?_⟩
    simp [queryChars]

theorem queryChars_of_query? {left : List Char} {query : Option String}
    (h : query? left = some query) : queryChars query = left ∧ '\n' ∉ left ∧
      ∀ q, query = some q → ∃ rest, q.toList = '?' :: rest := by
  rcases query?_eq_some_iff.mp h with ⟨rfl, rfl⟩ | ⟨rest, rfl, hline, rfl⟩
  · exact ⟨rfl, List.not_mem_nil, fun q hq => by cases hq⟩
  · refine ⟨by simp [queryChars], by simp [hline], fun q hq => ⟨rest, ?_⟩⟩
    obtain rfl := Option.some.inj hq
    simp

/-- Without a question mark in the template, the query begins at the first one of the fragment. -/
theorem FragmentReading.queryChars_eq {template fragment : String} {choices : List Choice}
    {slots : List Slot} {path : List Char} {query : Option String}
    (h : FragmentReading template fragment choices slots path query)
    (plain : '?' ∉ template.toList) :
    queryChars query = fragment.toList.dropWhile fun c => decide (c ≠ '?') := by
  have hpath : ∀ c ∈ path, decide (c ≠ '?') = true := by
    intro c hc
    rw [decide_eq_true_eq]
    rintro rfl
    exact h.reading.noQuery plain hc
  rw [h.whole, List.dropWhile_append_of_pos hpath]
  cases query with
  | none => rfl
  | some q =>
    obtain ⟨rest, hrest⟩ := h.marked q rfl
    simp [queryChars, hrest]

/-- What a pattern captures is a reading of the fragment, and the first in order of preference
among those whose query lies on one line. In a template without a question mark that is every
reading. -/
theorem captures_first_reading (template : String) (named : Option Bool) (config : Config)
    (wf : WellFormed template.toList) (fragment : String) (captures : Captures)
    (h : (Pattern.ofTemplate template named config).captures? fragment = some captures) :
    ∃ choices path,
      FragmentReading template fragment choices captures.slots path captures.query ∧
      ∀ choices' slots' path' query',
        FragmentReading template fragment choices' slots' path' query' →
        '\n' ∉ queryChars query' ∨ '?' ∉ template.toList →
        (choices' = choices ∧ slots' = captures.slots ∧ path' = path ∧
            query' = captures.query) ∨
          Preferred choices choices' := by
  obtain ⟨items, hs⟩ := wellFormed_iff_spells.mp wf
  rw [hs.captures?_eq] at h
  obtain ⟨t, ht, hcaptured, first⟩ := findSome?_first (hs.pairwise_attempts fragment.toList) h
  obtain ⟨hslots, hquery⟩ := Attempt.captures?_eq_some_iff.mp hcaptured
  obtain ⟨hchars, hline, hmarked⟩ := queryChars_of_query? hquery
  obtain ⟨path, hpath, whole⟩ := hs.mem_attempts_iff.mp ht
  have captured : FragmentReading template fragment t.choices captures.slots path
      captures.query := ⟨hslots ▸ hpath, by rw [whole, hchars], hmarked⟩
  refine ⟨t.choices, path, captured, ?_⟩
  intro choices' slots' path' query' other apart
  have line : '\n' ∉ queryChars query' := by
    rcases apart with line | plain
    · exact line
    · rw [other.queryChars_eq plain, ← captured.queryChars_eq plain, hchars]
      exact hline
  have accepted := query?_queryChars other.marked line
  have attempted : (⟨choices', slots', queryChars query'⟩ : Attempt) ∈
      attempts fragment.toList items :=
    hs.mem_attempts_iff.mpr ⟨path', other.reading, other.whole⟩
  rcases first _ attempted (by simp [Attempt.captures?, accepted]) with rfl | before
  · obtain rfl : query' = captures.query := Option.some.inj (accepted.symm.trans hquery)
    have same : path' = path := List.append_cancel_right (other.whole.symm.trans whole)
    exact .inl ⟨rfl, hslots, same, rfl⟩
  · exact .inr before

theorem captures_first_reading_of_ambiguous :
    WellFormed "*a/:b(/:c)".toList ∧
      (Pattern.ofTemplate "*a/:b(/:c)" none .standard).captures? "x/y/z?q" =
        some ⟨[some "x", some "y", some "z"], some "?q"⟩ ∧
      ∃ choices path, FragmentReading "*a/:b(/:c)" "x/y/z?q" choices
          [some "x", some "y", some "z"] path (some "?q") ∧
        ∀ choices' slots' path' query',
          FragmentReading "*a/:b(/:c)" "x/y/z?q" choices' slots' path' query' →
          '\n' ∉ queryChars query' ∨ '?' ∉ "*a/:b(/:c)".toList →
          (choices' = choices ∧ slots' = [some "x", some "y", some "z"] ∧ path' = path ∧
              query' = some "?q") ∨
            Preferred choices choices' :=
  ⟨by decide, by decide +kernel,
    captures_first_reading "*a/:b(/:c)" none .standard (by decide) "x/y/z?q"
      ⟨[some "x", some "y", some "z"], some "?q"⟩ (by decide +kernel)⟩

/-- Readings whose query goes on to a second line have to be left out: a template with a question
mark of its own can match after such a reading was refused. -/
theorem captures_not_first_on_two_lines :
    ¬ ∀ (template fragment : String) (captures : Captures), WellFormed template.toList →
      (Pattern.ofTemplate template none .standard).captures? fragment = some captures →
      ∃ choices path,
        FragmentReading template fragment choices captures.slots path captures.query ∧
        ∀ choices' slots' path' query',
          FragmentReading template fragment choices' slots' path' query' →
          (choices' = choices ∧ slots' = captures.slots ∧ path' = path ∧
              query' = captures.query) ∨
            Preferred choices choices' := by
  intro mostPreferred
  obtain ⟨choices, path, captured, first⟩ :=
    mostPreferred "(:a)(a?\n)" "a?\n" ⟨[none], none⟩ (by decide) (by decide +kernel)
  have name : Reading [':', 'a'] [.segment ['a']] [some "a"] ['a'] :=
    .segment rfl (by decide) (by decide) (by decide) .nil
  have without : Reading ['(', 'a', '?', '\n', ')'] [.omit] [] [] :=
    @Reading.omitted ['a', '?', '\n'] [] [] [] [] (by decide) .nil
  have refused : FragmentReading "(:a)(a?\n)" "a?\n" [.keep, .segment ['a'], .omit] [some "a"]
      ['a'] (some "?\n") :=
    ⟨Reading.kept name without, rfl, fun q hq => ⟨['\n'], by cases hq; rfl⟩⟩
  have wordless : ∀ c ∈ choices, c.word? = none := by
    rw [← List.filterMap_eq_nil_iff]
    simpa using captured.reading.words
  rcases first _ _ _ _ refused with ⟨-, hslots, -⟩ | ⟨common, better, worse, rest, rest', h⟩
  · exact absurd hslots (by decide)
  · obtain ⟨rfl, hworse, hbetter⟩ := h
    rcases common with _ | ⟨first, _ | ⟨second, common⟩⟩
    · cases hworse
      cases hbetter
    · cases hworse
      cases hbetter with
      | @segment longer _ _ => simpa [Choice.word?] using wordless (.segment longer) (by simp)
    · simp only [List.cons_append, List.cons.injEq] at hworse
      obtain ⟨-, rfl, -⟩ := hworse
      simpa [Choice.word?] using wordless (.segment ['a']) (by simp)

end FragmentRouting.Template
