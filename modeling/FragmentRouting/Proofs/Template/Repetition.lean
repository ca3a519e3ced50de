import FragmentRouting.Proofs.Template.Acceptance

/-!
# Asterisks that repeat

An asterisk without a name is no splat. Where it stands behind a character or a name, it repeats
that:

* `Describes template path`: the paths of a template, in which such an asterisk lets the atom before
  it be read any number of times;
* `Means.leaves_iff`: matching the items of a template leaves what stands behind such a path;
* `isMatch_iff_describes`: so a pattern matches these paths, and it matches nothing at all only if
  its template is not meaningful.
-/

namespace FragmentRouting.Template

/-- The words that an atom reads at once. -/
inductive Atom.Reads : Atom → List Char → Prop
  | char (c : Char) : Reads (.char c) [c]
  | segment {word : List Char} (nonempty : word ≠ []) (oneSegment : '/' ∉ word)
      (noQuery : '?' ∉ word) : Reads .segment word
  | splat {word : List Char} (noQuery : '?' ∉ word) : Reads .splat word

/-- The paths of a template. An atom with an asterisk behind it is read as often as one likes, and
a group is there or not. -/
inductive Describes : List Char → List Char → Prop
  | nil : Describes [] []
  | once {text rest word path : List Char} {a : Atom} (front : Begins text a rest)
      (hword : a.Reads word) (h : Describes rest path) : Describes text (word ++ path)
  | many {text rest path : List Char} {a : Atom} {words : List (List Char)}
      (front : Begins text a ('*' :: rest)) (unnamed : startsWord rest = false)
      (hwords : ∀ word ∈ words, a.Reads word) (h : Describes rest path) :
      Describes text (words.flatten ++ path)
  | kept {body rest inner path : List Char} (hbody : Describes body inner)
      (h : Describes rest path) : Describes ('(' :: (body ++ ')' :: rest)) (inner ++ path)
  | omitted {body rest path : List Char} (hbody : Meaningful body) (h : Describes rest path) :
      Describes ('(' :: (body ++ ')' :: rest)) path

/-! ## What is left behind an atom -/

theorem Atom.exists_left_iff {a : Atom} {text left : List Char} :
    (∃ t ∈ a.attempts text, t.left = left) ↔ ∃ word, text = word ++ left ∧ a.Reads word := by
  cases a with
  | char c =>
    simp only [mem_attempts_char]
    constructor
    · rintro ⟨_, ⟨left, rfl, rfl⟩, rfl⟩
      exact ⟨[c], rfl, .char c⟩
    · rintro ⟨word, rfl, hword⟩
      cases hword
      exact ⟨_, ⟨left, rfl, rfl⟩, rfl⟩
  | segment =>
    simp only [mem_attempts_segment]
    constructor
    · rintro ⟨_, ⟨word, left, rfl, nonempty, oneSegment, noQuery, rfl⟩, rfl⟩
      exact ⟨word, rfl, .segment nonempty oneSegment noQuery⟩
    · rintro ⟨word, rfl, hword⟩
      cases hword with
      | segment nonempty oneSegment noQuery =>
        exact ⟨_, ⟨word, left, rfl, nonempty, oneSegment, noQuery, rfl⟩, rfl⟩
  | splat =>
    simp only [mem_attempts_splat]
    constructor
    · rintro ⟨_, ⟨word, left, rfl, noQuery, rfl⟩, rfl⟩
      exact ⟨word, rfl, .splat noQuery⟩
    · rintro ⟨word, rfl, hword⟩
      cases hword with
      | splat noQuery => exact ⟨_, ⟨word, left, rfl, noQuery, rfl⟩, rfl⟩

theorem Atom.reads_of_mem_lengths {a : Atom} {text : List Char} {n : Nat}
    (h : n ∈ a.lengths text) : a.Reads (text.take n) := by
  have attempted : ∃ t ∈ a.attempts text, t.left = text.drop n :=
    ⟨_, List.mem_map_of_mem h, rfl⟩
  obtain ⟨word, whole, hword⟩ := Atom.exists_left_iff.mp attempted
  have same : text.take n = word :=
    List.append_cancel_right ((List.take_append_drop n text).trans whole)
  exact same ▸ hword

theorem Atom.length_mem_lengths {a : Atom} {word : List Char} (h : a.Reads word)
    (left : List Char) : word.length ∈ a.lengths (word ++ left) := by
  obtain ⟨t, ht, hleft⟩ := Atom.exists_left_iff.mpr ⟨word, rfl, h⟩
  obtain ⟨n, hn, rfl⟩ := List.mem_map.mp ht
  have bound := Atom.le_of_mem_lengths hn
  have lengths := congrArg List.length hleft
  simp only [List.length_drop, List.length_append] at bound lengths
  have same : n = word.length := by omega
  exact same ▸ hn

/-- What is left behind repetitions of an atom stands behind some words that it reads. -/
theorem Atom.exists_words {a : Atom} {fuel : Nat} {last : List Slot} {text : List Char} {t : Attempt}
    (h : t ∈ a.manyAttempts fuel last text) :
    ∃ words : List (List Char), (∀ word ∈ words, a.Reads word) ∧
      text = words.flatten ++ t.left := by
  induction fuel generalizing last text with
  | zero =>
    obtain rfl := List.mem_singleton.mp h
    exact ⟨[], List.forall_mem_nil _, rfl⟩
  | succ fuel ih =>
    rcases List.mem_append.mp h with h | h
    · obtain ⟨n, hn, ht⟩ := List.mem_flatMap.mp h
      have hword := Atom.reads_of_mem_lengths hn
      have cut := (List.take_append_drop n text).symm
      split at ht
      · obtain rfl := List.mem_singleton.mp ht
        exact ⟨[text.take n], by simpa using hword, by simp⟩
      · obtain ⟨words, hwords, whole⟩ := ih ht
        refine ⟨text.take n :: words, List.forall_mem_cons.mpr ⟨hword, hwords⟩, ?_⟩
        rw [List.flatten_cons, List.append_assoc, ← whole]
        exact cut
    · obtain rfl := List.mem_singleton.mp h
      exact ⟨[], List.forall_mem_nil _, rfl⟩

/-- Words that are not empty can be read one after the other, as each takes some of the text. -/
theorem Atom.exists_manyAttempt {a : Atom} {words : List (List Char)}
    (h : ∀ word ∈ words, word ≠ [] ∧ a.Reads word) (left : List Char) {fuel : Nat}
    (enough : (words.flatten ++ left).length < fuel) (last : List Slot) :
    ∃ t ∈ a.manyAttempts fuel last (words.flatten ++ left), t.left = left := by
  induction words generalizing fuel last with
  | nil =>
    cases fuel with
    | zero => cases enough
    | succ fuel => exact ⟨_, List.mem_append_right _ (List.mem_singleton_self _), rfl⟩
  | cons word words ih =>
    obtain ⟨⟨nonempty, hword⟩, hwords⟩ := List.forall_mem_cons.mp h
    have positive := List.length_pos_iff.mpr nonempty
    rw [List.flatten_cons, List.append_assoc, List.length_append] at enough
    obtain ⟨fuel, rfl⟩ := Nat.exists_eq_succ_of_ne_zero (Nat.ne_zero_of_lt enough)
    have enough' : (words.flatten ++ left).length < fuel := by omega
    obtain ⟨t, ht, hleft⟩ := ih hwords enough' (a.captures word)
    refine ⟨t, List.mem_append_left _ (List.mem_flatMap.mpr ⟨word.length, ?_, ?_⟩), hleft⟩
    · rw [List.flatten_cons, List.append_assoc]
      exact Atom.length_mem_lengths hword _
    · simpa [nonempty] using ht

/-! ## What is left behind items -/

/-- Reading an item can leave `left` of the text. -/
def ItemLeaves (item : Item) (text left : List Char) : Prop :=
  ∃ t ∈ itemAttempts text item, t.left = left

/-- Reading the items can leave `left` of the text. -/
def Leaves (items : List Item) (text left : List Char) : Prop :=
  ∃ t ∈ attempts text items, t.left = left

section
variable {text left : List Char}

theorem itemLeaves_once_iff {a : Atom} :
    ItemLeaves (.once a) text left ↔ ∃ word, text = word ++ left ∧ a.Reads word :=
  Atom.exists_left_iff

theorem itemLeaves_many_iff {a : Atom} :
    ItemLeaves (.many a) text left ↔
      ∃ words : List (List Char), text = words.flatten ++ left ∧ ∀ word ∈ words, a.Reads word := by
  constructor
  · rintro ⟨t, ht, rfl⟩
    obtain ⟨words, hwords, whole⟩ := Atom.exists_words ht
    exact ⟨words, whole, hwords⟩
  · rintro ⟨words, rfl, hwords⟩
    -- Empty words take nothing of the text, so they can be left out.
    have same : (words.filter (· ≠ [])).flatten = words.flatten := List.flatten_filter_ne_nil
    have proper : ∀ word ∈ words.filter (· ≠ []), word ≠ [] ∧ a.Reads word := by
      intro word hword
      obtain ⟨hmem, nonempty⟩ := List.mem_filter.mp hword
      exact ⟨of_decide_eq_true nonempty, hwords word hmem⟩
    rw [← same]
    exact Atom.exists_manyAttempt proper left (Nat.lt_succ_self _) a.absent

theorem itemLeaves_optional_iff {body : List Item} :
    ItemLeaves (.optional body) text left ↔ Leaves body text left ∨ text = left := by
  simp [ItemLeaves, Leaves, itemAttempts, or_and_right, exists_or, Attempt.after]

theorem leaves_nil_iff : Leaves [] text left ↔ text = left := by
  simp [Leaves, attempts]

theorem leaves_cons_iff {item : Item} {items : List Item} :
    Leaves (item :: items) text left ↔
      ∃ middle, ItemLeaves item text middle ∧ Leaves items middle left := by
  constructor
  · rintro ⟨_, ht, rfl⟩
    obtain ⟨first, hfirst, more, hmore, rfl⟩ := mem_attempts_cons.mp ht
    exact ⟨first.left, ⟨first, hfirst, rfl⟩, more, hmore, rfl⟩
  · rintro ⟨_, ⟨first, hfirst, rfl⟩, more, hmore, rfl⟩
    exact ⟨first.after more, mem_attempts_cons.mpr ⟨first, hfirst, more, hmore, rfl⟩, rfl⟩

end

/-! ## What is left behind a path -/

/-- Reading the items of a template leaves what stands behind a path of the template. -/
theorem Means.exists_path {template : List Char} {items : List Item} (h : Means template items)
    {text left : List Char} (hleft : Leaves items text left) :
    ∃ path, Describes template path ∧ text = path ++ left := by
  induction h generalizing text left with
  | nil => exact ⟨[], .nil, leaves_nil_iff.mp hleft⟩
  | once front _ ih =>
    obtain ⟨middle, hfirst, hrest⟩ := leaves_cons_iff.mp hleft
    obtain ⟨word, rfl, hword⟩ := itemLeaves_once_iff.mp hfirst
    obtain ⟨path, hpath, rfl⟩ := ih hrest
    exact ⟨word ++ path, .once front hword hpath, (List.append_assoc ..).symm⟩
  | many front unnamed _ ih =>
    obtain ⟨middle, hfirst, hrest⟩ := leaves_cons_iff.mp hleft
    obtain ⟨words, rfl, hwords⟩ := itemLeaves_many_iff.mp hfirst
    obtain ⟨path, hpath, rfl⟩ := ih hrest
    exact ⟨words.flatten ++ path, .many front unnamed hwords hpath, (List.append_assoc ..).symm⟩
  | group hbody _ ih ih' =>
    obtain ⟨middle, hfirst, hrest⟩ := leaves_cons_iff.mp hleft
    obtain ⟨path, hpath, rfl⟩ := ih' hrest
    rcases itemLeaves_optional_iff.mp hfirst with hfirst | rfl
    · obtain ⟨inner, hinner, rfl⟩ := ih hfirst
      exact ⟨inner ++ path, .kept hinner hpath, (List.append_assoc ..).symm⟩
    · exact ⟨path, .omitted hbody.meaningful hpath, rfl⟩

/-- Every path of a template can be read by its items, whatever is left behind the path. -/
theorem Describes.exists_items {template path : List Char} (h : Describes template path) :
    ∃ items, Means template items ∧ ∀ left, Leaves items (path ++ left) left := by
  induction h with
  | nil => exact ⟨[], .nil, fun left => leaves_nil_iff.mpr rfl⟩
  | once front hword _ ih =>
    obtain ⟨items, hitems, hleaves⟩ := ih
    refine ⟨_, .once front hitems, fun left => leaves_cons_iff.mpr ⟨_, ?_, hleaves left⟩⟩
    exact itemLeaves_once_iff.mpr ⟨_, List.append_assoc .., hword⟩
  | many front unnamed hwords _ ih =>
    obtain ⟨items, hitems, hleaves⟩ := ih
    refine ⟨_, .many front unnamed hitems, fun left => leaves_cons_iff.mpr ⟨_, ?_, hleaves left⟩⟩
    exact itemLeaves_many_iff.mpr ⟨_, List.append_assoc .., hwords⟩
  | @kept _ _ inner path _ _ ih ih' =>
    obtain ⟨inside, hinside, hinner⟩ := ih
    obtain ⟨items, hitems, hleaves⟩ := ih'
    refine ⟨_, .group hinside hitems, fun left => leaves_cons_iff.mpr ⟨_, ?_, hleaves left⟩⟩
    rw [List.append_assoc]
    exact itemLeaves_optional_iff.mpr (.inl (hinner _))
  | omitted hbody _ ih =>
    obtain ⟨items, hitems, hleaves⟩ := ih
    obtain ⟨inside, hinside⟩ := meaningful_iff_means.mp hbody
    refine ⟨_, .group hinside hitems, fun left => leaves_cons_iff.mpr ⟨_, ?_, hleaves left⟩⟩
    exact itemLeaves_optional_iff.mpr (.inr rfl)

theorem Means.leaves_iff {template : List Char} {items : List Item} (h : Means template items)
    {text left : List Char} :
    Leaves items text left ↔ ∃ path, Describes template path ∧ text = path ++ left := by
  constructor
  · exact h.exists_path
  · rintro ⟨path, hpath, rfl⟩
    obtain ⟨items', hitems', hleaves⟩ := hpath.exists_items
    rw [h.unique hitems']
    exact hleaves left

/-- Where every asterisk has a name, the paths are those that the template denotes. -/
theorem describes_iff_denotes {template : List Char} (wf : WellFormed template)
    {path : List Char} : Describes template path ↔ Denotes template path := by
  obtain ⟨items, spelled⟩ := wellFormed_iff_spells.mp wf
  constructor
  · intro h
    obtain ⟨t, ht, hleft⟩ := spelled.means.leaves_iff.mpr ⟨path, h, (List.append_nil path).symm⟩
    obtain ⟨path', reading, whole⟩ := spelled.mem_attempts_iff.mp ht
    rw [hleft, List.append_nil] at whole
    exact ⟨t.choices, t.slots, whole ▸ reading⟩
  · rintro ⟨choices, slots, reading⟩
    have attempted : (⟨choices, slots, []⟩ : Attempt) ∈ attempts path items :=
      spelled.mem_attempts_iff.mpr ⟨path, reading, (List.append_nil path).symm⟩
    obtain ⟨path', h, whole⟩ := spelled.means.exists_path ⟨_, attempted, rfl⟩
    rw [List.append_nil] at whole
    exact whole ▸ h

/-! ## Patterns -/

theorem Atom.exists_reads (a : Atom) : ∃ word, a.Reads word := by
  cases a with
  | char c => exact ⟨[c], .char c⟩
  | segment => exact ⟨['a'], .segment (by decide) (by decide) (by decide)⟩
  | splat => exact ⟨[], .splat List.not_mem_nil⟩

theorem Means.exists_describes {template : List Char} {items : List Item}
    (h : Means template items) : ∃ path, Describes template path := by
  induction h with
  | nil => exact ⟨[], .nil⟩
  | @once _ _ a _ front _ ih =>
    obtain ⟨path, hpath⟩ := ih
    obtain ⟨word, hword⟩ := a.exists_reads
    exact ⟨_, .once front hword hpath⟩
  | many front unnamed _ ih =>
    obtain ⟨path, hpath⟩ := ih
    exact ⟨_, .many front unnamed (List.forall_mem_nil _) hpath⟩
  | group hbody _ _ ih' =>
    obtain ⟨path, hpath⟩ := ih'
    exact ⟨_, .omitted hbody.meaningful hpath⟩

theorem isSome_query?_iff {left : List Char} :
    (query? left).isSome = true ↔ left = [] ∨ ∃ rest, left = '?' :: rest ∧ '\n' ∉ rest := by
  rw [Option.isSome_iff_exists]
  constructor
  · rintro ⟨query, h⟩
    rcases query?_eq_some_iff.mp h with ⟨hleft, -⟩ | ⟨rest, hleft, line, -⟩
    · exact .inl hleft
    · exact .inr ⟨rest, hleft, line⟩
  · rintro (hleft | ⟨rest, hleft, line⟩)
    · exact ⟨_, query?_eq_some_iff.mpr (.inl ⟨hleft, rfl⟩)⟩
    · exact ⟨_, query?_eq_some_iff.mpr (.inr ⟨rest, hleft, line, rfl⟩)⟩

/-- A whole match leaves nothing, or a query of one line. -/
theorem isSome_match?_iff {items : List Item} {fragment : String} :
    (match? items fragment).isSome = true ↔ ∃ left, Leaves items fragment.toList left ∧
      (left = [] ∨ ∃ rest, left = '?' :: rest ∧ '\n' ∉ rest) := by
  rw [match?_eq_findSome?, List.findSome?_isSome_iff]
  simp only [Attempt.captures?, Option.isSome_map, isSome_query?_iff]
  constructor
  · rintro ⟨t, ht, accepted⟩
    exact ⟨t.left, ⟨t, ht, rfl⟩, accepted⟩
  · rintro ⟨_, ⟨t, ht, rfl⟩, accepted⟩
    exact ⟨t, ht, accepted⟩

end FragmentRouting.Template

namespace FragmentRouting.Pattern

open Template (Balanced Describes IdleStar Meaningful startsWord)

/-- A pattern matches the paths of its template, alone or with a query of one line behind a question
mark. -/
theorem isMatch_iff_exists_path {template fragment : String} (named : Option Bool)
    (config : Config) :
    (ofTemplate template named config).isMatch fragment = true ↔
      ∃ path : String, Describes template.toList path.toList ∧
        (fragment = path ∨
          ∃ query : String, '\n' ∉ query.toList ∧ fragment = path ++ "?" ++ query) := by
  rw [isMatch, captures?]
  cases compiled : (ofTemplate template named config).items with
  | none =>
    have meaningless : ¬ Meaningful template.toList := Template.items?_eq_none_iff.mp compiled
    simp only [Option.bind_none, Option.isSome_none, Bool.false_eq_true, false_iff]
    rintro ⟨path, hpath, -⟩
    obtain ⟨items, hitems, -⟩ := hpath.exists_items
    exact meaningless hitems.meaningful
  | some items =>
    have means : Template.Means template.toList items := Template.items?_eq_some_iff.mp compiled
    rw [Option.bind_some, Template.isSome_match?_iff]
    constructor
    · rintro ⟨left, hleaves, hleft⟩
      obtain ⟨path, hpath, whole⟩ := means.exists_path hleaves
      have described : Describes template.toList (String.ofList path).toList := by
        rwa [String.toList_ofList]
      have whole : fragment = String.ofList path ++ String.ofList left := by
        rw [← String.ofList_append, ← whole, String.ofList_toList]
      refine ⟨String.ofList path, described, ?_⟩
      rcases hleft with rfl | ⟨rest, rfl, line⟩
      · exact .inl (whole.trans (String.append_empty ..))
      · refine .inr ⟨String.ofList rest, by rwa [String.toList_ofList], ?_⟩
        rw [whole, String.append_assoc, ← List.singleton_append, String.ofList_append]
    · rintro ⟨path, hpath, rfl | ⟨query, line, rfl⟩⟩
      · have hleaves := means.leaves_iff.mpr ⟨_, hpath, (List.append_nil _).symm⟩
        exact ⟨[], hleaves, .inl rfl⟩
      · have chars : (path ++ "?" ++ query).toList = path.toList ++ '?' :: query.toList := by simp
        have hleaves := means.leaves_iff.mpr ⟨_, hpath, chars⟩
        exact ⟨'?' :: query.toList, hleaves, .inr ⟨_, rfl, line⟩⟩

/-- A pattern matches no fragment exactly if a parenthesis of its template has no partner, or an
asterisk has neither a name nor anything to repeat. Any other asterisk without a name repeats the
character or the name before it. -/
theorem isMatch_iff_describes (template : String) (named : Option Bool) (config : Config) :
    let p := ofTemplate template named config
    ((∀ fragment, p.isMatch fragment = false) ↔
        ¬ Balanced template.toList ∨ IdleStar template.toList) ∧
      ∀ fragment, p.isMatch fragment = true ↔
        ∃ path : String, Describes template.toList path.toList ∧
          (fragment = path ∨
            ∃ query : String, '\n' ∉ query.toList ∧ fragment = path ++ "?" ++ query) := by
  intro p
  refine ⟨?_, fun fragment => isMatch_iff_exists_path named config⟩
  rw [← Template.not_meaningful_iff]
  constructor
  · intro never meaningful
    obtain ⟨items, hitems⟩ := Template.meaningful_iff_means.mp meaningful
    obtain ⟨path, hpath⟩ := hitems.exists_describes
    have described : Describes template.toList (String.ofList path).toList := by
      rwa [String.toList_ofList]
    have matched := (isMatch_iff_exists_path named config).mpr ⟨_, described, .inl rfl⟩
    rw [never] at matched
    cases matched
  · intro meaningless fragment
    have compiled : p.items = none := p.compiled.trans (Template.items?_eq_none_iff.mpr meaningless)
    exact (Template.never_of_items_eq_none compiled).2 fragment

/-- An asterisk without a name does not keep a template from matching: here it repeats the
character before it. -/
theorem character_repeated_by_star :
    ¬ ∀ (template : String) (named : Option Bool) (config : Config),
      (¬ Balanced template.toList ∨ ∃ before after,
        template.toList = before ++ '*' :: after ∧ startsWord after = false) →
      ∀ fragment, (ofTemplate template named config).isMatch fragment = false := by
  intro unmatched
  have unnamed : ∃ before after,
      "a*/z".toList = before ++ '*' :: after ∧ startsWord after = false :=
    ⟨['a'], ['/', 'z'], by decide, by decide⟩
  have never := unmatched "a*/z" none .standard (.inr unnamed) "aa/z"
  have matched : (ofTemplate "a*/z" none .standard).isMatch "aa/z" = true := by decide +kernel
  rw [matched] at never
  cases never

end FragmentRouting.Pattern
