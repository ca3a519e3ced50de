import FragmentRouting.Proofs.Template.Language
import FragmentRouting.Proofs.Template.Pairing
import FragmentRouting.Proofs.Template.Suffix

/-!
# The capture groups of a template

The names of a template are found in its characters, its captures in its items and its groups in
the text that it is rewritten to. All three agree:

* `namedMarks`: the colons and asterisks with a name behind them, from the left;
* `capturedBy_items`: the items of a template capture these names and nothing else;
* `length_slots_match?`: a match fills one slot for each capture;
* `captureGroups`: the groups that capture in a regular expression, read off its text alone;
* `captureGroups_regexOf`: they are those of the names, and a last one for the query;
* `captures_of_template`: all of this for a pattern, unless it matches nothing.
-/

namespace FragmentRouting.Template

open Text (isWord)

/-! ## Names on the characters -/

/-- The names of a template, read off its characters: at every colon and asterisk before a word
character, the run of word characters behind it. -/
def namedMarks : List Char → List Token
  | [] => []
  | c :: rest =>
    if c = ':' ∧ startsWord rest = true then
      .segment (String.ofList (rest.takeWhile isWord)) :: namedMarks rest
    else if c = '*' ∧ startsWord rest = true then
      .splat (String.ofList (rest.takeWhile isWord)) :: namedMarks rest
    else namedMarks rest

/-- Whether a token has a name. -/
def Token.isNamed (t : Token) : Bool :=
  t.name?.isSome

theorem not_isNamed_ofChar (c : Char) : (Token.ofChar c).isNamed = false := by
  unfold Token.ofChar
  split_ifs <;> rfl

theorem namedMarks_word {c : Char} (h : isWord c = true) (rest : List Char) :
    namedMarks (c :: rest) = namedMarks rest := by
  obtain ⟨-, colon, asterisk⟩ := ne_mark_of_isWord h
  simp [namedMarks, colon, asterisk]

/-- Reading on behind a name skips word characters only, and none of them is a mark. -/
theorem named_tokensFrom {skipped : Nat} {text : List Char}
    (h : ∀ c ∈ text.take skipped, isWord c = true) :
    (tokensFrom skipped text).filter Token.isNamed = namedMarks text := by
  induction text generalizing skipped with
  | nil => cases skipped <;> rfl
  | cons c rest ih =>
    cases skipped with
    | succ skipped =>
      rw [List.take_succ_cons, List.forall_mem_cons] at h
      rw [namedMarks_word h.1]
      exact ih h.2
    | zero =>
      have behind : (tokensFrom (rest.takeWhile isWord).length rest).filter Token.isNamed =
          namedMarks rest :=
        ih (le_length_takeWhile_iff.mp (Nat.le_refl _)).2
      have plain : (tokensFrom 0 rest).filter Token.isNamed = namedMarks rest :=
        ih (List.forall_mem_nil _)
      simp only [tokensFrom, namedMarks, takeWhile_isWord_ne_nil]
      split
      · rw [List.filter_cons_of_pos rfl, behind]
      · split
        · rw [List.filter_cons_of_pos rfl, behind]
        · rw [List.filter_cons_of_neg (by simp [not_isNamed_ofChar]), plain]

theorem named_templateRow (template : String) :
    ((templateRow template).map Prod.fst).filter Token.isNamed = namedMarks template.toList := by
  rw [map_fst_templateRow]
  exact named_tokensFrom (List.forall_mem_nil _)

/-! ## Captures of the items -/

/-- What a token captures with, if it has a name. -/
def Token.capture (t : Token) : Atom :=
  if t.isSplat then .splat else .segment

/-- The atom itself, if it captures. -/
def Atom.captured : Atom → List Atom
  | char _ => []
  | a => [a]

mutual

def Item.captured : Item → List Atom
  | .once a | .many a => a.captured
  | .optional body => capturedBy body

/-- The atoms that capture, in order. -/
def capturedBy : List Item → List Atom
  | [] => []
  | item :: rest => item.captured ++ capturedBy rest

end

theorem namedMarks_dropWhile (text : List Char) :
    namedMarks (text.dropWhile isWord) = namedMarks text := by
  induction text with
  | nil => rfl
  | cons c rest ih =>
    cases h : isWord c with
    | false => rw [List.dropWhile_cons_of_neg (by simp [h])]
    | true => rw [List.dropWhile_cons_of_pos h, ih, namedMarks_word h]

theorem namedMarks_append {after : List Char} (h : startsWord after = false) (text : List Char) :
    namedMarks (text ++ after) = namedMarks text ++ namedMarks after := by
  induction text with
  | nil => rfl
  | cons c rest ih =>
    simp only [List.cons_append, namedMarks, startsWord_append h, takeWhile_isWord_append h, ih]
    split_ifs <;> rfl

/-- The name at the front of a text, if there is one, is that of the atom at the front. -/
theorem Begins.capture_namedMarks {text rest : List Char} {a : Atom} (h : Begins text a rest) :
    (namedMarks text).map Token.capture = a.captured ++ (namedMarks rest).map Token.capture := by
  cases h with
  | char plain =>
    obtain ⟨-, -, star, segment⟩ := plain
    simp [namedMarks, star, segment, Atom.captured]
  | segment named =>
    rw [namedMarks_dropWhile]
    simp [namedMarks, named, Atom.captured, Token.capture, Token.isSplat]
  | splat named =>
    rw [namedMarks_dropWhile]
    simp [namedMarks, named, Atom.captured, Token.capture, Token.isSplat]

/-- The items that a text means capture its names in their order. -/
theorem Means.capturedBy_eq {text : List Char} {items : List Item} (h : Means text items) :
    capturedBy items = (namedMarks text).map Token.capture := by
  induction h with
  | nil => rfl
  | once front _ ih => rw [capturedBy, Item.captured, ih, front.capture_namedMarks]
  | many front unnamed _ ih =>
    rw [capturedBy, Item.captured, ih, front.capture_namedMarks]
    simp [namedMarks, unnamed]
  | group _ _ ih ih' =>
    rw [capturedBy, Item.captured, ih, ih']
    simp [namedMarks, namedMarks_append (startsWord_closing _)]

/-- The items of a template capture its names in their order. -/
theorem capturedBy_items {template : String} {items : List Item}
    (h : items? template = some items) :
    capturedBy items = (namedMarks template.toList).map Token.capture :=
  (items?_eq_some_iff.mp h).capturedBy_eq

mutual

theorem Item.slots_eq (item : Item) : item.slots = item.captured.length := by
  cases item with
  | once a | many a => cases a <;> rfl
  | optional body => exact slotsOf_eq body

theorem slotsOf_eq (items : List Item) : slotsOf items = (capturedBy items).length := by
  cases items with
  | nil => rfl
  | cons item rest =>
    rw [slotsOf, capturedBy, List.length_append, Item.slots_eq item, slotsOf_eq rest]

end

/-! ## Slots of a match -/

theorem Atom.length_captures (a : Atom) (word : List Char) :
    (a.captures word).length = a.slots := by
  cases a <;> rfl

theorem Atom.length_absent (a : Atom) : a.absent.length = a.slots := by
  cases a <;> rfl

mutual

theorem Item.length_absent (item : Item) : item.absent.length = item.slots := by
  cases item with
  | once a | many a => exact a.length_absent
  | optional body => exact length_absentSlots body

theorem length_absentSlots (items : List Item) : (absentSlots items).length = slotsOf items := by
  cases items with
  | nil => rfl
  | cons item rest =>
    rw [absentSlots, List.length_append, Item.length_absent item, length_absentSlots rest, slotsOf]

end

theorem Atom.length_slots_manyAttempts (a : Atom) {fuel : Nat} {last : List Slot}
    {text : List Char} (hlast : last.length = a.slots) {t : Attempt}
    (ht : t ∈ a.manyAttempts fuel last text) : t.slots.length = a.slots := by
  induction fuel generalizing last text with
  | zero =>
    obtain rfl := List.mem_singleton.mp ht
    exact hlast
  | succ fuel ih =>
    rcases List.mem_append.mp ht with ht | ht
    · obtain ⟨n, -, ht⟩ := List.mem_flatMap.mp ht
      split at ht
      · obtain rfl := List.mem_singleton.mp ht
        exact a.length_captures _
      · exact ih (a.length_captures _) ht
    · obtain rfl := List.mem_singleton.mp ht
      exact hlast

mutual

theorem length_slots_itemAttempts {item : Item} {text : List Char} {t : Attempt}
    (ht : t ∈ itemAttempts text item) : t.slots.length = item.slots := by
  cases item with
  | once a =>
    obtain ⟨n, -, rfl⟩ := List.mem_map.mp ht
    exact a.length_captures _
  | many a => exact a.length_slots_manyAttempts a.length_absent ht
  | optional body =>
    rcases List.mem_append.mp ht with ht | ht
    · obtain ⟨inside, hinside, rfl⟩ := List.mem_map.mp ht
      rw [Attempt.after, List.nil_append, length_slots_attempts hinside, Item.slots]
    · obtain rfl := List.mem_singleton.mp ht
      exact length_absentSlots body

theorem length_slots_attempts {items : List Item} {text : List Char} {t : Attempt}
    (ht : t ∈ attempts text items) : t.slots.length = slotsOf items := by
  cases items with
  | nil =>
    obtain rfl := List.mem_singleton.mp ht
    rfl
  | cons item rest =>
    obtain ⟨first, hfirst, ht⟩ := List.mem_flatMap.mp ht
    obtain ⟨more, hmore, rfl⟩ := List.mem_map.mp ht
    rw [Attempt.after, List.length_append, length_slots_itemAttempts hfirst,
      length_slots_attempts hmore, slotsOf]

end

/-- Every match fills as many slots as the items have captures. -/
theorem length_slots_match? {items : List Item} {fragment : String} {captures : Captures}
    (h : match? items fragment = some captures) : captures.slots.length = slotsOf items := by
  rw [match?_eq_findSome?] at h
  obtain ⟨t, ht, hcaptures⟩ := List.exists_of_findSome?_eq_some h
  rw [← (Attempt.captures?_eq_some_iff.mp hcaptures).1]
  exact length_slots_attempts ht

/-! ## Groups of a regular expression -/

/-- Where a reader of a regular expression stands. -/
inductive Place where
  | plain
  | escaped
  | inClass
  | escapedInClass
  deriving DecidableEq, Repr

/-- The place behind one more character. A backslash takes the meaning of the next character, and
a class goes on to its closing bracket. -/
def Place.next (c : Char) : Place → Place
  | plain => if c = '\\' then escaped else if c = '[' then inClass else plain
  | escaped => plain
  | inClass => if c = '\\' then escapedInClass else if c = ']' then plain else inClass
  | escapedInClass => inClass

/-- The text of a group that is open, up to its closing parenthesis, with `depth` more groups open
inside it. -/
def groupText : Nat → Place → List Char → List Char
  | _, _, [] => []
  | depth, place, c :: rest =>
    if place = .plain ∧ c = ')' then
      match depth with
      | 0 => []
      | depth + 1 => c :: groupText depth .plain rest
    else if place = .plain ∧ c = '(' then c :: groupText (depth + 1) .plain rest
    else c :: groupText depth (place.next c) rest

/-- The texts of the groups that capture, in the order in which they open. A question mark behind
its parenthesis says that a group does not capture. -/
def captureGroups : Place → List Char → List String
  | _, [] => []
  | place, c :: rest =>
    if place = .plain ∧ c = '(' ∧ rest.head? ≠ some '?' then
      String.ofList (groupText 0 .plain rest) :: captureGroups .plain rest
    else captureGroups (place.next c) rest

/-- The group text of a token with a name. -/
def Token.group (t : Token) : String :=
  if t.isSplat then "[^?]*?" else "[^/?]+"

theorem paired_of_part? {t : Token} {part : Part} (h : t.part? = some part) : t ≠ .opening := by
  rintro rfl
  cases h

mutual

theorem paired_of_partOf? {node : Nested Token} {part : Part} (h : partOf? node = some part) :
    ∀ m ∈ node.row, m.1 = .opening → m.2 = true := by
  cases node with
  | leaf t =>
    intro m hm opens
    obtain rfl := List.mem_singleton.mp hm
    exact absurd opens (paired_of_part? h)
  | group body =>
    obtain ⟨parts, _, hparts, -, -⟩ := partOf?_group_eq_some_iff.mp h
    intro m hm opens
    rcases List.mem_cons.mp hm with rfl | hm
    · rfl
    · rcases List.mem_append.mp hm with hm | hm
      · exact paired_of_partsOf? hparts m hm opens
      · obtain rfl := List.mem_singleton.mp hm
        cases opens

/-- In trees that have parts, every opening parenthesis has its partner. -/
theorem paired_of_partsOf? {row : List (Nested Token)} {parts : List Part}
    (h : partsOf? row = some parts) : ∀ m ∈ rowOf row, m.1 = .opening → m.2 = true := by
  cases row with
  | nil => exact List.forall_mem_nil _
  | cons node rest =>
    obtain ⟨part, more, hpart, hmore, -⟩ := partsOf?_cons_eq_some_iff.mp h
    rw [rowOf, List.forall_mem_append]
    exact ⟨paired_of_partOf? hpart, paired_of_partsOf? hmore⟩

end

theorem captureGroups_escaped {c : Char} (h : c ≠ '(') (rest : List Char) :
    captureGroups .plain (escaped c ++ rest) = captureGroups .plain rest := by
  cases escape : needsEscape c with
  | true => simp [escaped, escape, captureGroups, Place.next]
  | false =>
    have backslash : c ≠ '\\' := ne_of_not_needsEscape escape (by decide)
    have bracket : c ≠ '[' := ne_of_not_needsEscape escape (by decide)
    simp [escaped, escape, captureGroups, Place.next, h, backslash, bracket]

/-- Only names make groups that capture, once the parentheses have their partners. -/
theorem captureGroups_rowText {row : List (Token × Bool)} (proper : ∀ m ∈ row, m.1.Proper)
    (paired : ∀ m ∈ row, m.1 = .opening → m.2 = true) (rest : List Char) :
    captureGroups .plain (rowText (fun _ => segmentGroup.toList) (fun _ => splatGroup.toList) row ++
        rest) =
      ((row.map Prod.fst).filter Token.isNamed).map Token.group ++
        captureGroups .plain rest := by
  induction row with
  | nil => rfl
  | cons m row ih =>
    obtain ⟨t, isPaired⟩ := m
    obtain ⟨ht, hrow⟩ := List.forall_mem_cons.mp proper
    obtain ⟨hpaired, hothers⟩ := List.forall_mem_cons.mp paired
    have behind := ih hrow hothers
    rw [rowText_cons, List.append_assoc]
    cases t with
    | char c => exact (captureGroups_escaped ht.2.1 _).trans behind
    | segment name =>
      rw [List.map_cons, List.filter_cons_of_pos rfl, List.map_cons, List.cons_append, ← behind]
      simp [pairedText, Token.written, segmentGroup, captureGroups, groupText, Place.next,
        Token.group, Token.isSplat]
    | splat name =>
      rw [List.map_cons, List.filter_cons_of_pos rfl, List.map_cons, List.cons_append, ← behind]
      simp [pairedText, Token.written, splatGroup, captureGroups, groupText, Place.next,
        Token.group, Token.isSplat]
    | star =>
      rw [List.map_cons, List.filter_cons_of_neg Bool.false_ne_true, ← behind]
      simp [pairedText, Token.written, captureGroups, Place.next]
    | opening =>
      rw [List.map_cons, List.filter_cons_of_neg Bool.false_ne_true, ← behind]
      obtain rfl : isPaired = true := hpaired rfl
      simp [pairedText, optionalGroup, plainOpening, captureGroups, Place.next]
    | closing =>
      rw [List.map_cons, List.filter_cons_of_neg Bool.false_ne_true, ← behind]
      cases isPaired <;> simp [pairedText, optionalGroup, captureGroups, Place.next]

/-! ## The groups of a pattern -/

/-- The groups of a regular expression are those of its names, and one for the query. -/
theorem captureGroups_regexOf {template : String} {items : List Item}
    (h : items? template = some items) :
    captureGroups .plain (regexOf template).toList =
      (namedMarks template.toList).map Token.group ++ ["\\?.*"] := by
  obtain ⟨parts, hparts, -⟩ := Option.bind_eq_some_iff.mp h
  have proper : ∀ m ∈ templateRow template, m.1.Proper := fun m hm =>
    (readable_templateRow template).proper m.1 (List.mem_map_of_mem hm)
  have anchored (more : List Char) :
      captureGroups .plain ('^' :: more) = captureGroups .plain more := by
    simp [captureGroups, Place.next]
  have query : captureGroups .plain "(\\?.*)?\\Z".toList = ["\\?.*"] := by
    decide +kernel
  rw [toList_regexOf, anchored, captureGroups_rowText proper (paired_of_partsOf? hparts),
    named_templateRow, query]

example : captureGroups .plain (regexOf "(foo)::a(:b*c\\)").toList =
    ["[^/?]+", "[^/?]+", "[^?]*?", "\\?.*"] := by
  decide +kernel

theorem namedTokens_ofTemplate (template : String) (named : Option Bool) (config : Config) :
    (Pattern.ofTemplate template named config).namedTokens = namedMarks template.toList :=
  named_tokensFrom (List.forall_mem_nil _)

theorem map_some_names (p : Pattern) : p.names.map some = p.namedTokens.map Token.name? := by
  rw [Pattern.names, List.map_filterMap_some_eq_filter_map_isSome, List.filter_map]
  rfl

theorem length_names (p : Pattern) : p.names.length = p.namedTokens.length := by
  simpa using congrArg List.length (map_some_names p)

theorem mem_splatSlots_iff {p : Pattern} {i : Nat} :
    i ∈ p.splatSlots ↔ ∃ name, p.namedTokens[i]? = some (.splat name) := by
  constructor
  · intro h
    obtain ⟨⟨t, k⟩, ht, rfl⟩ := List.mem_map.mp h
    obtain ⟨hmem, hsplat⟩ := List.mem_filter.mp ht
    cases t <;> cases hsplat
    exact ⟨_, List.mem_zipIdx_iff_getElem?.mp hmem⟩
  · rintro ⟨name, h⟩
    exact List.mem_map.mpr
      ⟨(.splat name, i), List.mem_filter.mpr ⟨List.mem_zipIdx_iff_getElem?.mpr h, rfl⟩, rfl⟩

theorem exists_items_of_wellFormed {template : String} (h : WellFormed template.toList) :
    ∃ items, items? template = some items := by
  obtain ⟨items, spelled⟩ := wellFormed_iff_spells.mp h
  exact ⟨items, spelled.items?_eq⟩

theorem never_of_items_eq_none {p : Pattern} (h : p.items = none) :
    p.regex = neverRegex ∧ ∀ fragment, p.isMatch fragment = false := by
  simp [Pattern.regex, Pattern.isMatch, Pattern.captures?, h]

/-- A template with items has a capture for each of its names. -/
theorem slotsOf_items {template : String} {items : List Item} (h : items? template = some items) :
    slotsOf items = (namedMarks template.toList).length := by
  rw [slotsOf_eq, capturedBy_items h, List.length_map]

/-- A pattern has its names in the order of its template. Unless the template is not well formed and
matches nothing, there is a group for each of them and a last one for the query. -/
theorem captures_of_template (template : String) (named : Option Bool) (config : Config) :
    let p := Pattern.ofTemplate template named config
    let marks := namedMarks template.toList
    p.names.map some = marks.map Token.name? ∧
      (∀ i, i ∈ p.splatSlots ↔ ∃ name, marks[i]? = some (.splat name)) ∧
      (¬ WellFormed template.toList ∧ p.regex = neverRegex ∧
          (∀ fragment, p.isMatch fragment = false) ∨
        ∃ items, p.items = some items ∧
          capturedBy items = marks.map Token.capture ∧
          captureGroups .plain p.regex.toList = marks.map Token.group ++ ["\\?.*"] ∧
          p.groups = p.names.length + 1 ∧
          ∀ fragment captures, p.captures? fragment = some captures →
            captures.slots.length = p.names.length) := by
  intro p marks
  have hnamed : p.namedTokens = marks := namedTokens_ofTemplate template named config
  have names : p.names.map some = marks.map Token.name? := hnamed ▸ map_some_names p
  have count : p.names.length = marks.length := by
    simpa using congrArg List.length names
  refine ⟨names, fun i => hnamed ▸ mem_splatSlots_iff, ?_⟩
  cases compiled : p.items with
  | none =>
    left
    refine ⟨?_, never_of_items_eq_none compiled⟩
    intro wellFormed
    obtain ⟨items, hitems⟩ := exists_items_of_wellFormed wellFormed
    have found : p.items = some items := p.compiled.trans hitems
    rw [compiled] at found
    cases found
  | some items =>
    right
    have hitems : items? template = some items := p.compiled.symm.trans compiled
    have slots : slotsOf items = p.names.length := (slotsOf_items hitems).trans count.symm
    refine ⟨items, rfl, capturedBy_items hitems, ?_, ?_, ?_⟩
    · rw [Pattern.regex, compiled]
      exact captureGroups_regexOf hitems
    · rw [Pattern.groups, compiled, ← slots]
    · intro fragment captures hcaptures
      rw [Pattern.captures?, compiled] at hcaptures
      rw [length_slots_match? hcaptures, slots]

end FragmentRouting.Template
