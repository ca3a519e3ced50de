import FragmentRouting.Proofs.Template.Regular

/-!
# Matching by backtracking

A regular expression is matched from the left. Where there is a choice, the preferred one is tried
first, and the next one if the rest of the match fails. Groups keep what they captured last. For the
regular expression of a template, this is how its items are matched.

* `Regular.run`: matches a part, and hands captures and text left to a function for the rest;
* `repeating_one`: repeating a class tries every length of a run;
* `runAll_regulars`: the parts of items match as the items do;
* `regexMatch?_regex`: what a pattern captures is what its regular expression captures.
-/

namespace FragmentRouting.Template

section
variable {β : Type}

/-- Reads one character of some kind. -/
def one (p : Char → Bool) (text : List Char) (next : List Char → Option β) : Option β :=
  match text with
  | [] => none
  | c :: rest => if p c then next rest else none

/-- The preferred one of two choices: further reading, unless that is lazy. -/
def prefer (isLazy : Bool) (further stop : Option β) : Option β :=
  if isLazy then stop <|> further else further <|> stop

/-- Repeats a step any number of times. A time that reads the empty text is the last. -/
def repeating (step : List Slot → List Char → (List Slot → List Char → Option β) → Option β)
    (isLazy : Bool) (next : List Slot → List Char → Option β) :
    Nat → List Slot → List Char → Option β
  | 0, slots, text => next slots text
  | fuel + 1, slots, text =>
    prefer isLazy
      (step slots text fun slots left =>
        if left.length < text.length then repeating step isLazy next fuel slots left
        else next slots left)
      (next slots text)

end

mutual

/-- How many groups of a part capture. -/
def Regular.count : Regular → Nat
  | .group captures body => captures.toNat + countAll body
  | .repeated _ _ part => part.count
  | .char _ | .any | .outside _ | .start | .finish | .never => 0

def countAll : List Regular → Nat
  | [] => 0
  | part :: rest => part.count + countAll rest

end

mutual

/-- Matches a part from the front of the text. The groups of the part are numbered from `index`, the
whole text has the length `whole`. -/
def Regular.run {β : Type} (whole index : Nat) (slots : List Slot) (text : List Char)
    (next : List Slot → List Char → Option β) : Regular → Option β
  | .char c => one (· = c) text (next slots)
  | .any => one (· ≠ '\n') text (next slots)
  | .outside excluded => one (!excluded.contains ·) text (next slots)
  | .start => if text.length = whole then next slots text else none
  | .finish => if text.isEmpty then next slots text else none
  | .never => none
  | .group false body => runAll whole index slots text next body
  | .group true body =>
    runAll whole (index + 1) slots text
      (fun slots left =>
        let word := text.take (text.length - left.length)
        next (slots.set index (some (String.ofList word))) left)
      body
  | .repeated .optional isLazy part =>
    prefer isLazy (part.run whole index slots text next) (next slots text)
  | .repeated .star isLazy part =>
    repeating (fun slots text next => part.run whole index slots text next) isLazy next
      (text.length + 1) slots text
  | .repeated .plus isLazy part =>
    part.run whole index slots text fun slots left =>
      repeating (fun slots text next => part.run whole index slots text next) isLazy next
        (left.length + 1) slots left

/-- Matches parts one after the other. -/
def runAll {β : Type} (whole index : Nat) (slots : List Slot) (text : List Char)
    (next : List Slot → List Char → Option β) : List Regular → Option β
  | [] => next slots text
  | part :: rest =>
    part.run whole index slots text fun slots left =>
      runAll whole (index + part.count) slots left next rest

end

/-- What the groups of a regular expression capture at the front of a text that it matches. There is
nothing if it does not match, or cannot be read. -/
def regexMatch? (regex text : String) : Option (List Slot) :=
  (regular? regex).bind fun row =>
    runAll text.toList.length 0 (List.replicate (countAll row) none) text.toList
      (fun slots _ => some slots) row

/-! ## Classes -/

/-- The numbers up to `n` in the order in which they are tried. -/
def counts (isLazy : Bool) (n : Nat) : List Nat :=
  if isLazy then List.range (n + 1) else (List.range (n + 1)).reverse

section
variable {β : Type} {isLazy : Bool}

theorem findSome?_counts_succ (n : Nat) (f : Nat → Option β) :
    (counts isLazy (n + 1)).findSome? f =
      prefer isLazy ((counts isLazy n).findSome? fun k => f (k + 1)) (f 0) := by
  have cut : List.range (n + 1 + 1) = 0 :: (List.range (n + 1)).map Nat.succ :=
    List.range_succ_eq_map
  cases isLazy with
  | true =>
    simp only [counts, prefer, cut, if_true, List.findSome?_cons, List.findSome?_map,
      Function.comp_def]
    cases f 0 <;> rfl
  | false =>
    simp only [counts, prefer, cut, Bool.false_eq_true, if_false, List.reverse_cons,
      List.findSome?_append, ← List.map_reverse, List.findSome?_map, Function.comp_def,
      List.findSome?_singleton, Option.orElse_eq_orElse, Option.orElse_eq_or]

variable {p : Char → Bool} {next : List Slot → List Char → Option β} {slots : List Slot}
  {text : List Char}

/-- A class that is repeated is read in every length up to that of the longest run. -/
theorem repeating_one {fuel : Nat} (enough : text.length < fuel) :
    repeating (fun slots text next => one p text (next slots)) isLazy next fuel slots text =
      (counts isLazy (text.takeWhile p).length).findSome? fun n => next slots (text.drop n) := by
  obtain ⟨fuel, rfl⟩ : ∃ more, fuel = more + 1 := ⟨fuel - 1, by omega⟩
  induction text generalizing fuel with
  | nil => cases isLazy <;> simp [repeating, one, prefer, counts]
  | cons c rest ih =>
    cases h : p c with
    | false => cases isLazy <;> simp [repeating, one, prefer, counts, h]
    | true =>
      rw [List.takeWhile_cons_of_pos h, List.length_cons, findSome?_counts_succ]
      obtain ⟨fuel, rfl⟩ : ∃ more, fuel = more + 1 := ⟨fuel - 1, by simp at enough; omega⟩
      have behind := ih fuel (by simpa using enough)
      simp only [List.drop_succ_cons, List.drop_zero, ← behind]
      rw [repeating]
      simp [one, h]

/-- A class that is read at least once is read in the same lengths, except for the empty one. -/
theorem one_repeating :
    (one p text fun left => repeating (fun slots text next => one p text (next slots)) false next
        (left.length + 1) slots left) =
      (List.range' 1 (text.takeWhile p).length).reverse.findSome?
        fun n => next slots (text.drop n) := by
  cases text with
  | nil => rfl
  | cons c rest =>
    cases h : p c with
    | false => simp [one, h]
    | true =>
      rw [one, if_pos h, repeating_one (Nat.lt_succ_self _), List.takeWhile_cons_of_pos h,
        List.length_cons, List.range'_eq_map_range, ← List.map_reverse, List.findSome?_map]
      simp [counts, Function.comp_def, Nat.add_comm 1]

end

/-! ## Atoms -/

section
variable {β : Type} {whole : Nat} {before last after : List Slot} {text : List Char}
  {next : List Slot → List Char → Option β}

theorem take_consumed (text : List Char) (n : Nat) :
    text.take (text.length - (text.drop n).length) = text.take n := by
  rw [List.take_eq_take_iff, List.length_drop]
  omega

theorem set_slot (before after : List Slot) (old new : Slot) :
    (before ++ [old] ++ after).set before.length new = before ++ [new] ++ after := by
  simp

/-- The parts of an atom read what the atom reads, and capture it in the place of what they captured
before. -/
theorem Atom.run_regular {a : Atom} (hlast : last.length = a.slots) :
    a.regular.run whole before.length (before ++ last ++ after) text next =
      a.reading text fun word left => next (before ++ a.captures word ++ after) left := by
  cases a with
  | char c =>
    obtain rfl := List.length_eq_zero_iff.mp hlast
    cases text with
    | nil => rfl
    | cons d rest =>
      by_cases same : d = c <;>
        simp [Atom.regular, Regular.run, one, Atom.reading, Atom.lengths, Atom.captures, same]
  | segment =>
    obtain ⟨old, rfl⟩ := List.length_eq_one_iff.mp hlast
    have kind : (fun c : Char => !(['/', '?'].contains c)) = fun c => c ≠ '/' && c ≠ '?' := by
      funext c
      simp
    simp only [Atom.regular, Regular.run, runAll, one_repeating, take_consumed, set_slot, kind,
      Atom.reading, Atom.lengths, Atom.captures, segmentRun]
  | splat =>
    obtain ⟨old, rfl⟩ := List.length_eq_one_iff.mp hlast
    have kind : (fun c : Char => !(['?'].contains c)) = fun c => decide (c ≠ '?') := by
      funext c
      simp
    simp only [Atom.regular, Regular.run, runAll, repeating_one (Nat.lt_succ_self _), take_consumed,
      set_slot, kind, Atom.reading, Atom.lengths, Atom.captures, splatRun, counts, if_true]

/-- Repeating the parts of an atom repeats the atom. -/
theorem Atom.repeating_regular {a : Atom} {fuel : Nat} (hlast : last.length = a.slots) :
    repeating (fun slots text next => a.regular.run whole before.length slots text next) false
        next fuel (before ++ last ++ after) text =
      a.readingMany (fun slots left => next (before ++ slots ++ after) left) fuel last text := by
  induction fuel generalizing last text with
  | zero => rfl
  | succ fuel ih =>
    -- On both sides, a time that reads the empty text is the last.
    rw [repeating, a.run_regular hlast, readingMany]
    simp only [prefer, Bool.false_eq_true, if_false]
    congr 1
    apply findSome?_congr
    intro n hn
    have bound := Atom.le_of_mem_lengths hn
    have progress : (text.drop n).length < text.length ↔ (text.take n).isEmpty = false := by
      rw [List.length_drop, ← Bool.not_eq_true, List.isEmpty_iff_length_eq_zero, List.length_take]
      omega
    have behind := @ih _ (text.drop n) (a.length_captures (text.take n))
    cases empty : (text.take n).isEmpty with
    | true => simp only [progress, empty, Bool.true_eq_false, if_false, if_true]
    | false => simp only [progress, empty, Bool.false_eq_true, if_false, if_true, behind]

end

/-! ## Items -/

mutual

theorem Item.count_regular (item : Item) : item.regular.count = item.slots := by
  cases item with
  | once a | many a => cases a <;> rfl
  | optional body => simp [Item.regular, Regular.count, Item.slots, countAll_regulars body]

theorem countAll_regulars (items : List Item) : countAll (regulars items) = slotsOf items := by
  cases items with
  | nil => rfl
  | cons item rest =>
    rw [regulars, countAll, slotsOf, Item.count_regular item, countAll_regulars rest]

end

theorem countAll_append (first rest : List Regular) :
    countAll (first ++ rest) = countAll first + countAll rest := by
  induction first with
  | nil => rw [List.nil_append, countAll, Nat.zero_add]
  | cons part first ih => rw [List.cons_append, countAll, countAll, ih, Nat.add_assoc]

section
variable {β : Type} {whole : Nat}

-- The continuations need to agree only where they are used, behind as many slots as the item has.
theorem matchItem_congr {text : List Char} {next next' : List Slot → List Char → Option β}
    {item : Item} (h : ∀ slots left, slots.length = item.slots → next slots left = next' slots left) :
    matchItem text next item = matchItem text next' item := by
  rw [matchItem_eq_findSome?, matchItem_eq_findSome?]
  apply findSome?_congr
  intro t ht
  exact h _ _ (length_slots_itemAttempts ht)

theorem runAll_append (index : Nat) (slots : List Slot) (text : List Char)
    (next : List Slot → List Char → Option β) (first rest : List Regular) :
    runAll whole index slots text next (first ++ rest) =
      runAll whole index slots text
        (fun slots left => runAll whole (index + countAll first) slots left next rest) first := by
  induction first generalizing index slots text with
  | nil => rfl
  | cons part first ih =>
    rw [List.cons_append, runAll, runAll]
    congr 1
    funext slots left
    rw [ih, countAll, Nat.add_assoc]

-- The slots of the items to come are absent on both sides, those read stand in `before`.

mutual

theorem Item.run_regular (item : Item) (before after : List Slot) (text : List Char)
    (next : List Slot → List Char → Option β) :
    item.regular.run whole before.length (before ++ item.absent ++ after) text next =
      matchItem text (fun slots left => next (before ++ slots ++ after) left) item := by
  cases item with
  | once a => exact a.run_regular a.length_absent
  | many a => exact a.repeating_regular a.length_absent
  | optional body =>
    rw [Item.regular, Regular.run, Regular.run, Item.absent, runAll_regulars body, matchItem]
    rfl

/-- The parts of items match as the items do. -/
theorem runAll_regulars (items : List Item) (before after : List Slot) (text : List Char)
    (next : List Slot → List Char → Option β) :
    runAll whole before.length (before ++ absentSlots items ++ after) text next (regulars items) =
      matchItems text (fun slots left => next (before ++ slots ++ after) left) items := by
  cases items with
  | nil => simp [regulars, runAll, absentSlots, matchItems]
  | cons item rest =>
    have cut : before ++ absentSlots (item :: rest) ++ after =
        before ++ item.absent ++ (absentSlots rest ++ after) := by
      simp [absentSlots]
    rw [regulars, runAll, cut, Item.run_regular item, matchItems]
    apply matchItem_congr
    intro slots left hslots
    have behind : before.length + item.regular.count = (before ++ slots).length := by
      rw [List.length_append, hslots, item.count_regular]
    have same : before ++ slots ++ (absentSlots rest ++ after) =
        before ++ slots ++ absentSlots rest ++ after := by
      simp
    rw [behind, same, runAll_regulars rest]
    simp

end

end

/-! ## The whole match -/

theorem one_cons {β : Type} (p : Char → Bool) (c : Char) (rest : List Char)
    (next : List Char → Option β) : one p (c :: rest) next = if p c then next rest else none :=
  rfl

/-- A class that is followed by the end reads the whole text. -/
theorem findSome?_counts_end {β : Type} {p : Char → Bool} {text : List Char} (f : Nat → β) :
    (counts false (text.takeWhile p).length).findSome?
        (fun n => if (text.drop n).isEmpty then some (f n) else none) =
      if text.all p then some (f text.length) else none := by
  have whole_iff : text.takeWhile p = text ↔ text.all p = true := by
    rw [List.takeWhile_eq_self_iff, List.all_eq_true]
  by_cases all : text.all p = true
  · rw [whole_iff.mpr all, if_pos all, counts]
    simp [List.range_succ]
  · rw [if_neg all, List.findSome?_eq_none_iff]
    intro n hn
    have short : (text.takeWhile p).length < text.length := by
      by_contra long
      exact all (whole_iff.mp ((List.takeWhile_prefix p).eq_of_length_le (not_lt.mp long)))
    have bound : n ≤ (text.takeWhile p).length := by
      simpa [counts, Nat.lt_succ_iff] using hn
    have more : (text.drop n).isEmpty = false := by
      rw [List.isEmpty_eq_false_iff, ne_eq, List.drop_eq_nil_iff]
      omega
    rw [more]
    rfl

/-- The last group takes a query that makes up the text left. -/
theorem runAll_query (whole : Nat) (before : List Slot) (left : List Char) :
    runAll whole before.length (before ++ [none]) left (fun slots _ => some slots)
        [queryRegular, .finish] =
      (query? left).map fun query => before ++ [query] := by
  cases left with
  | nil => simp [queryRegular, runAll, Regular.run, one, prefer, query?]
  | cons c rest =>
    by_cases mark : c = '?'
    · subst mark
      simp only [queryRegular, runAll, Regular.run, one_cons, prefer, decide_true, if_true,
        Bool.false_eq_true, if_false, repeating_one (Nat.lt_succ_self _), List.isEmpty_cons,
        Option.orElse_eq_orElse, Option.orElse_eq_or, Option.or_none, findSome?_counts_end]
      by_cases line : '\n' ∈ rest <;> simp [query?, line]
    · simp [queryRegular, runAll, Regular.run, one, prefer, query?, mark]

mutual

theorem Item.absent_eq (item : Item) : item.absent = List.replicate item.slots none := by
  cases item with
  | once a | many a => cases a <;> rfl
  | optional body => exact absentSlots_eq body

theorem absentSlots_eq (items : List Item) :
    absentSlots items = List.replicate (slotsOf items) none := by
  cases items with
  | nil => rfl
  | cons item rest =>
    rw [absentSlots, slotsOf, Item.absent_eq item, absentSlots_eq rest, List.replicate_append_replicate]

end

/-- The regular expression of a template captures what its items capture, and the query. -/
theorem regexMatch?_regexOf {template : String} {items : List Item}
    (h : items? template = some items) (fragment : String) :
    regexMatch? (regexOf template) fragment =
      (match? items fragment).map fun captures => captures.slots ++ [captures.query] := by
  have groups : List.replicate (countAll (wholeRegulars items)) none =
      [] ++ absentSlots items ++ [none] := by
    rw [wholeRegulars, countAll, countAll_append, countAll_regulars, absentSlots_eq]
    simp [countAll, Regular.count, queryRegular, List.replicate_succ']
  rw [regexMatch?, regular?_regexOf h, Option.bind_some, groups, wholeRegulars, runAll, Regular.run,
    if_pos rfl, runAll_append]
  refine (runAll_regulars items [] [none] fragment.toList _).trans ?_
  rw [match?, matchItems_eq_findSome?, matchItems_eq_findSome?, List.map_findSome?]
  apply findSome?_congr
  intro t ht
  have index : 0 + Regular.start.count + countAll (regulars items) = t.slots.length := by
    rw [countAll_regulars, length_slots_attempts ht, Regular.count, Nat.zero_add]
  rw [index, List.nil_append, runAll_query, Function.comp_apply, Option.map_map]
  rfl

end FragmentRouting.Template

namespace FragmentRouting.Pattern

/-- What a pattern captures of a fragment is what its regular expression captures: a text or nothing
for each name, and the query. -/
theorem regexMatch?_regex (p : Pattern) (fragment : String) :
    Template.regexMatch? p.regex fragment =
      (p.captures? fragment).map fun captures => captures.slots ++ [captures.query] := by
  cases compiled : p.items with
  | none =>
    have never : Template.regexMatch? Template.neverRegex fragment = none := by
      rw [Template.regexMatch?, Template.regular?_neverRegex]
      rfl
    rw [Pattern.captures?, Pattern.regex, compiled]
    exact never
  | some items =>
    rw [Pattern.captures?, Pattern.regex, compiled]
    exact Template.regexMatch?_regexOf (p.compiled.symm.trans compiled) fragment

end FragmentRouting.Pattern
