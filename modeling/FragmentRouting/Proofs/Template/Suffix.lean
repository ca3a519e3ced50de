import Mathlib.Data.List.Basic
import FragmentRouting.Proofs.Template.Compilation

/-!
# A query behind a path

Nothing that a template without a question mark captures reaches behind the first question mark of
a fragment. So a query behind a path changes neither whether the path is matched nor a capture,
also where an asterisk repeats a capture:

* `PathItem item`: an item with no question mark of its own;
* `attempts_append`: the attempts on a path with a query are those on the path;
* `captures?_append`: a pattern captures from a path with a query what it captures from the path,
  and the query.
-/

namespace FragmentRouting.Template

open Text (isWord)

/-- An item with no question mark of its own. -/
inductive PathItem : Item → Prop
  | once {a : Atom} (h : a ≠ .char '?') : PathItem (.once a)
  | many {a : Atom} (h : a ≠ .char '?') : PathItem (.many a)
  | optional {body : List Item} (h : ∀ item ∈ body, PathItem item) : PathItem (.optional body)

/-! ## Attempts on a path with a query -/

variable {text query : List Char}

theorem takeWhile_append_stop {p : Char → Bool} {c : Char} (h : p c = false)
    (before after : List Char) :
    (before ++ c :: after).takeWhile p = before.takeWhile p := by
  induction before with
  | nil => simp [h]
  | cons x before ih => simp only [List.cons_append, List.takeWhile_cons, ih]

theorem Atom.lengths_append {a : Atom} (h : a ≠ .char '?') (text query : List Char) :
    a.lengths (text ++ '?' :: query) = a.lengths text := by
  cases a with
  | char c =>
    have other : c ≠ '?' := fun e => h (e ▸ rfl)
    cases text with
    | nil => simp [Atom.lengths, Ne.symm other]
    | cons x rest => rfl
  | segment => simp [Atom.lengths, segmentRun, takeWhile_append_stop]
  | splat => simp [Atom.lengths, splatRun, takeWhile_append_stop]

theorem Atom.le_of_mem_lengths {a : Atom} {n : Nat} (h : n ∈ a.lengths text) : n ≤ text.length := by
  cases a with
  | char c =>
    cases text with
    | nil => simp [Atom.lengths] at h
    | cons x rest =>
      by_cases same : x = c <;> simp [Atom.lengths, same] at h
      rw [h]
      exact Nat.le_add_left 1 rest.length
  | segment =>
    have hn : n < 1 + (segmentRun text).length := by
      simp only [Atom.lengths, List.mem_reverse, List.mem_range'_1] at h
      exact h.2
    have := (List.takeWhile_prefix (p := fun c => c ≠ '/' && c ≠ '?') (l := text)).length_le
    unfold segmentRun at hn
    omega
  | splat =>
    have hn : n < (splatRun text).length + 1 := List.mem_range.mp h
    have := (List.takeWhile_prefix (p := (· ≠ '?')) (l := text)).length_le
    unfold splatRun at hn
    omega

theorem Atom.attempts_append {a : Atom} (h : a ≠ .char '?') (text query : List Char) :
    a.attempts (text ++ '?' :: query) = (a.attempts text).map (Attempt.extend ('?' :: query)) := by
  simp only [Atom.attempts, Atom.lengths_append h, List.map_map]
  apply List.map_congr_left
  intro n hn
  have bound := Atom.le_of_mem_lengths hn
  simp [Attempt.extend, List.take_append_of_le_length bound, List.drop_append_of_le_length bound]

/-- Repetitions end at the question mark, and more fuel than characters before it makes no
difference. -/
theorem Atom.manyAttempts_append {a : Atom} (h : a ≠ .char '?') {fuel more : Nat}
    (last : List Slot) (enough : text.length < fuel) (enough' : text.length < more) :
    a.manyAttempts more last (text ++ '?' :: query) =
      (a.manyAttempts fuel last text).map (Attempt.extend ('?' :: query)) := by
  induction fuel generalizing more last text with
  | zero => cases enough
  | succ fuel ih =>
    obtain ⟨more, rfl⟩ := Nat.exists_eq_succ_of_ne_zero (Nat.ne_zero_of_lt enough')
    simp only [Atom.manyAttempts, Atom.lengths_append h, List.map_append, List.map_flatMap,
      List.map_singleton]
    congr 1
    apply List.flatMap_congr
    intro n hn
    have bound := Atom.le_of_mem_lengths hn
    rw [List.take_append_of_le_length bound, List.drop_append_of_le_length bound]
    by_cases hword : (text.take n).isEmpty = true
    · simp [hword, Attempt.extend]
    · have shorter : (text.drop n).length < text.length := by
        have : text.take n ≠ [] := by simpa using hword
        have := List.length_pos_iff.mpr this
        rw [List.length_take] at this
        rw [List.length_drop]
        omega
      simp only [hword, if_false, Bool.false_eq_true]
      exact ih _ (by omega) (by omega)

mutual

theorem itemAttempts_append {item : Item} (h : PathItem item) (text query : List Char) :
    itemAttempts (text ++ '?' :: query) item =
      (itemAttempts text item).map (Attempt.extend ('?' :: query)) := by
  cases h with
  | once ha => exact Atom.attempts_append ha text query
  | many ha =>
    refine Atom.manyAttempts_append ha _ (Nat.lt_succ_self _) ?_
    rw [List.length_append]
    omega
  | optional hbody =>
    simp only [itemAttempts, attempts_append hbody text query, List.map_append, List.map_map]
    rfl

/-- The attempts on a path with a query are those on the path, with the query left over. -/
theorem attempts_append {items : List Item} (h : ∀ item ∈ items, PathItem item)
    (text query : List Char) :
    attempts (text ++ '?' :: query) items =
      (attempts text items).map (Attempt.extend ('?' :: query)) := by
  cases items with
  | nil => rfl
  | cons item rest =>
    obtain ⟨hitem, hrest⟩ := List.forall_mem_cons.mp h
    simp only [attempts, itemAttempts_append hitem text query, List.flatMap_map, List.map_flatMap,
      List.map_map]
    apply List.flatMap_congr
    intro t _
    simp only [Attempt.extend, attempts_append hrest t.left query, List.map_map]
    rfl

end

/-! ## What is left of a text -/

theorem Atom.left_suffix_manyAttempts {a : Atom} {fuel : Nat} {last : List Slot} {t : Attempt}
    (h : t ∈ a.manyAttempts fuel last text) : t.left <:+ text := by
  induction fuel generalizing last text with
  | zero =>
    obtain rfl := List.mem_singleton.mp h
    exact List.suffix_rfl
  | succ fuel ih =>
    rcases List.mem_append.mp h with h | h
    · obtain ⟨n, -, ht⟩ := List.mem_flatMap.mp h
      split at ht
      · obtain rfl := List.mem_singleton.mp ht
        exact List.drop_suffix n text
      · exact (ih ht).trans (List.drop_suffix n text)
    · obtain rfl := List.mem_singleton.mp h
      exact List.suffix_rfl

mutual

theorem left_suffix_itemAttempts {text : List Char} {item : Item} {t : Attempt}
    (h : t ∈ itemAttempts text item) : t.left <:+ text := by
  cases item with
  | once a =>
    obtain ⟨n, -, rfl⟩ := List.mem_map.mp h
    exact List.drop_suffix n text
  | many a => exact Atom.left_suffix_manyAttempts h
  | optional body =>
    rcases List.mem_append.mp h with h | h
    · obtain ⟨u, hu, rfl⟩ := List.mem_map.mp h
      have hbody : u.left <:+ text := left_suffix_attempts hu
      exact hbody
    · obtain rfl := List.mem_singleton.mp h
      exact List.suffix_rfl

/-- An attempt leaves the end of its text. -/
theorem left_suffix_attempts {text : List Char} {items : List Item} {t : Attempt}
    (h : t ∈ attempts text items) : t.left <:+ text := by
  cases items with
  | nil =>
    obtain rfl := List.mem_singleton.mp h
    exact List.suffix_rfl
  | cons item rest =>
    obtain ⟨first, hfirst, ht⟩ := List.mem_flatMap.mp h
    obtain ⟨u, hu, rfl⟩ := List.mem_map.mp ht
    have hleft : u.left <:+ first.left := left_suffix_attempts hu
    exact hleft.trans (left_suffix_itemAttempts hfirst)

end

theorem not_mem_left {items : List Item} {t : Attempt} (h : t ∈ attempts text items)
    (noQuery : '?' ∉ text) : '?' ∉ t.left := by
  intro hmem
  exact noQuery ((left_suffix_attempts h).subset hmem)

/-! ## The whole match -/

/-- What a whole match makes of the captures of a path when a query follows: the query group takes
the rest of the line, and there is no match if another line follows. -/
def withQuery (query : List Char) (captures : Captures) : Option Captures :=
  if '\n' ∈ query then none else some ⟨captures.slots, some (String.ofList ('?' :: query))⟩

theorem Attempt.captures?_extend {t : Attempt} (h : '?' ∉ t.left) (query : List Char) :
    (t.extend ('?' :: query)).captures? = t.captures?.bind (withQuery query) := by
  obtain ⟨choices, slots, left⟩ := t
  cases left with
  | nil => by_cases hline : '\n' ∈ query <;>
      simp [Attempt.captures?, Attempt.extend, query?, withQuery, hline]
  | cons c rest =>
    have other : c ≠ '?' := fun e => h (e ▸ List.mem_cons_self)
    simp [Attempt.captures?, Attempt.extend, query?, other]

theorem findSome?_congr {α β : Type} {f g : α → Option β} {xs : List α}
    (h : ∀ x ∈ xs, f x = g x) : xs.findSome? f = xs.findSome? g := by
  induction xs with
  | nil => rfl
  | cons x xs ih =>
    obtain ⟨hx, hxs⟩ := List.forall_mem_cons.mp h
    rw [List.findSome?_cons, List.findSome?_cons, hx, ih hxs]

theorem findSome?_withQuery {α : Type} (f : α → Option Captures) (query : List Char)
    (xs : List α) :
    xs.findSome? (fun x => (f x).bind (withQuery query)) =
      (xs.findSome? f).bind (withQuery query) := by
  by_cases hline : '\n' ∈ query
  · have never : withQuery query = fun _ => none := by
      funext captures
      simp [withQuery, hline]
    simp [never]
  · have always : withQuery query =
        some ∘ fun captures => ⟨captures.slots, some (String.ofList ('?' :: query))⟩ := by
      funext captures
      simp [withQuery, hline]
    simp only [always, ← Option.map_eq_bind, List.map_findSome?]
    rfl

theorem match?_append {items : List Item} (h : ∀ item ∈ items, PathItem item) {path : String}
    (noQuery : '?' ∉ path.toList) (query : String) :
    match? items (path ++ "?" ++ query) = (match? items path).bind (withQuery query.toList) := by
  have chars : (path ++ "?" ++ query).toList = path.toList ++ '?' :: query.toList := by simp
  rw [match?_eq_findSome?, match?_eq_findSome?, chars, attempts_append h, List.findSome?_map,
    ← findSome?_withQuery]
  apply findSome?_congr
  intro t ht
  exact Attempt.captures?_extend (not_mem_left ht noQuery) _

/-- A path without a question mark has no query. -/
theorem match?_query {items : List Item} {path : String} (noQuery : '?' ∉ path.toList)
    {captures : Captures} (h : match? items path = some captures) : captures.query = none := by
  rw [match?_eq_findSome?] at h
  obtain ⟨t, ht, hcaptures⟩ := List.exists_of_findSome?_eq_some h
  have absent : '?' ∉ t.left := not_mem_left ht noQuery
  obtain ⟨choices, slots, left⟩ := t
  cases left with
  | nil =>
    obtain rfl := Option.some.inj hcaptures
    rfl
  | cons c rest =>
    have other : c ≠ '?' := fun e => absent (e ▸ List.mem_cons_self)
    simp [Attempt.captures?, query?, other] at hcaptures

/-! ## Templates without a question mark -/

theorem Begins.suffix {text rest : List Char} {a : Atom} (h : Begins text a rest) :
    rest <:+ text := by
  cases h with
  | char _ => exact List.suffix_cons _ _
  | segment _ | splat _ => exact (List.dropWhile_suffix isWord).trans (List.suffix_cons _ _)

theorem Begins.not_mem {text rest : List Char} {a : Atom} (h : Begins text a rest) {c : Char}
    (absent : c ∉ text) : c ∉ rest := by
  intro hmem
  exact absent (h.suffix.subset hmem)

theorem Begins.ne_question {text rest : List Char} {a : Atom} (h : Begins text a rest)
    (noMark : '?' ∉ text) : a ≠ .char '?' := by
  cases h with
  | char _ =>
    intro same
    exact noMark (Atom.char.inj same ▸ List.mem_cons_self)
  | segment _ | splat _ => simp

/-- A text without a question mark means no item with one. -/
theorem Means.pathItem {text : List Char} {items : List Item} (h : Means text items)
    (noMark : '?' ∉ text) : ∀ item ∈ items, PathItem item := by
  induction h with
  | nil => exact List.forall_mem_nil _
  | once front _ ih =>
    exact List.forall_mem_cons.mpr
      ⟨.once (front.ne_question noMark), ih (front.not_mem noMark)⟩
  | many front _ _ ih =>
    have behind := List.not_mem_of_not_mem_cons (front.not_mem noMark)
    exact List.forall_mem_cons.mpr ⟨.many (front.ne_question noMark), ih behind⟩
  | group _ _ ih ih' =>
    simp only [List.mem_cons, List.mem_append, not_or] at noMark
    exact List.forall_mem_cons.mpr ⟨.optional (ih noMark.2.1), ih' noMark.2.2.2⟩

theorem pathItem_of_items? {template : String} (h : '?' ∉ template.toList) {items : List Item}
    (hitems : items? template = some items) : ∀ item ∈ items, PathItem item :=
  (items?_eq_some_iff.mp hitems).pathItem h

end FragmentRouting.Template

namespace FragmentRouting.Pattern

open Template (Captures withQuery)

variable {p : Pattern} {path : String}

/-- Behind a path, a query on one line changes nothing that a pattern captures of the path, and a
query of several lines is never matched. -/
theorem captures?_append (noMark : '?' ∉ p.template.toList) (noQuery : '?' ∉ path.toList)
    (query : String) :
    p.captures? (path ++ "?" ++ query) = (p.captures? path).bind (withQuery query.toList) := by
  unfold captures?
  cases hitems : p.items with
  | none => rfl
  | some items =>
    have plain := Template.pathItem_of_items? noMark (p.compiled.symm.trans hitems)
    exact Template.match?_append plain noQuery query

theorem captures?_query (noQuery : '?' ∉ path.toList) {captures : Captures}
    (h : p.captures? path = some captures) : captures.query = none := by
  obtain ⟨items, -, hmatch⟩ := Option.bind_eq_some_iff.mp h
  exact Template.match?_query noQuery hmatch

end FragmentRouting.Pattern
