import FragmentRouting.Proofs.Template.CaptureGroups

/-!
# Places of tokens

A token stands where the tokens before it end. Searching the characters of a template for a mark
with a name behind it finds the place of the first token with that mark:

* `spelling_prefix_of_mem`: what a token spells stands at its place;
* `firstNamed?_eq_firstPlace?`: the search and the row of tokens tell the same place.
-/

namespace FragmentRouting.Template

open Text (isWord)

/-! ## Marks -/

theorem isNamed_of_mark? {t : Token} {mark : Char} (h : t.mark? = some mark) :
    t.isNamed = true := by
  cases t with
  | segment | splat => rfl
  | _ => cases h

theorem mark?_eq_star_iff {t : Token} : t.mark? = some '*' ↔ t.isSplat = true := by
  cases t <;> simp [Token.mark?, Token.isSplat]

theorem head?_spelling {t : Token} {mark : Char} (h : t.mark? = some mark) :
    t.spelling.head? = some mark := by
  cases t <;> cases h <;> rfl

/-! ## Places -/

/-- The tokens of a row, each with its place, where `start` characters stand before the row. -/
def placedFrom : Nat → List Token → List (Token × Nat)
  | _, [] => []
  | start, t :: rest => (t, start) :: placedFrom (start + t.spelling.length) rest

/-- The tokens of a template that have a name, each with its place. -/
def namedPlaces (template : String) : List (Token × Nat) :=
  (placedFrom 0 (tokens template)).filter fun place => place.1.isNamed

/-- The place of the first token with a mark. -/
def firstPlace? (mark : Char) (places : List (Token × Nat)) : Option Nat :=
  (places.find? fun place => place.1.mark? = some mark).map Prod.snd

theorem map_fst_placedFrom (start : Nat) (row : List Token) :
    (placedFrom start row).map Prod.fst = row := by
  induction row generalizing start with
  | nil => rfl
  | cons t rest ih => rw [placedFrom, List.map_cons, ih]

theorem exists_of_mem_placedFrom {start : Nat} {row : List Token} {place : Token × Nat}
    (h : place ∈ placedFrom start row) :
    ∃ before after, row = before ++ place.1 :: after ∧
      place.2 = start + (before.flatMap Token.spelling).length := by
  induction row generalizing start with
  | nil => cases h
  | cons t rest ih =>
    rcases List.mem_cons.mp h with rfl | h
    · exact ⟨[], rest, rfl, rfl⟩
    · obtain ⟨before, after, hrow, hplace⟩ := ih h
      refine ⟨t :: before, after, by rw [hrow, List.cons_append], ?_⟩
      rw [hplace, List.flatMap_cons, List.length_append]
      omega

/-- What a token spells stands at its place. -/
theorem spelling_prefix_of_mem {template : String} {place : Token × Nat}
    (h : place ∈ placedFrom 0 (tokens template)) :
    place.1.spelling <+: template.toList.drop place.2 := by
  obtain ⟨before, after, hrow, hplace⟩ := exists_of_mem_placedFrom h
  have spelled := spelling_tokensFrom 0 template.toList
  rw [← tokens, hrow, List.flatMap_append, List.flatMap_cons, List.drop_zero] at spelled
  rw [hplace, Nat.zero_add, ← spelled, List.drop_left]
  exact List.prefix_append _ _

theorem map_fst_namedPlaces (template : String) :
    (namedPlaces template).map Prod.fst = namedMarks template.toList := by
  calc (namedPlaces template).map Prod.fst
      = ((placedFrom 0 (tokens template)).map Prod.fst).filter Token.isNamed := by
        rw [List.filter_map]
        rfl
    _ = (tokens template).filter Token.isNamed := by rw [map_fst_placedFrom]
    _ = namedMarks template.toList := named_tokensFrom (List.forall_mem_nil _)

/-! ## The first place -/

theorem firstPlace?_cons (mark : Char) (place : Token × Nat) (rest : List (Token × Nat)) :
    firstPlace? mark (place :: rest) =
      if place.1.mark? = some mark then some place.2 else firstPlace? mark rest := by
  by_cases h : place.1.mark? = some mark <;> simp [firstPlace?, h]

/-- A token with a mark has a name. -/
theorem firstPlace?_filter (mark : Char) (places : List (Token × Nat)) :
    firstPlace? mark (places.filter fun place => place.1.isNamed) = firstPlace? mark places := by
  rw [firstPlace?, firstPlace?, List.find?_filter]
  congr 2
  funext place
  rw [Bool.eq_iff_iff]
  simpa using isNamed_of_mark?

theorem exists_of_firstPlace? {mark : Char} {places : List (Token × Nat)} {i : Nat}
    (h : firstPlace? mark places = some i) : ∃ t, (t, i) ∈ places ∧ t.mark? = some mark := by
  obtain ⟨place, found, rfl⟩ := Option.map_eq_some_iff.mp h
  have marked := List.find?_some found
  exact ⟨place.1, List.mem_of_find?_eq_some found, of_decide_eq_true marked⟩

/-- The mark of the first token that has it stands at the place of the token. -/
theorem getElem?_of_firstPlace? {template : String} {mark : Char} {i : Nat}
    (h : firstPlace? mark (namedPlaces template) = some i) :
    template.toList[i]? = some mark := by
  obtain ⟨t, ht, hmark⟩ := exists_of_firstPlace? h
  obtain ⟨after, spelled⟩ := spelling_prefix_of_mem (List.mem_of_mem_filter ht)
  rw [← List.head?_drop, ← spelled, List.head?_append, head?_spelling hmark]
  rfl

theorem firstPlace?_eq_none_iff {mark : Char} {places : List (Token × Nat)} :
    firstPlace? mark places = none ↔ ∀ t ∈ places.map Prod.fst, t.mark? ≠ some mark := by
  simp [firstPlace?]

theorem firstNamed?_cons (mark c : Char) (rest : List Char) :
    firstNamed? mark (c :: rest) =
      if c = mark ∧ startsWord rest = true then some 0 else (firstNamed? mark rest).map (· + 1) :=
  rfl

/-- A character that the search does not stop at moves what it finds on by one. -/
theorem firstNamed?_shift {mark c : Char} {rest : List Char}
    (h : ¬ (c = mark ∧ startsWord rest = true)) (start : Nat) :
    (firstNamed? mark (c :: rest)).map (start + ·) =
      (firstNamed? mark rest).map (start + 1 + ·) := by
  rw [firstNamed?_cons, if_neg h, Option.map_map]
  congr 1
  funext i
  exact (Nat.add_right_comm start 1 i).symm

/-- Reading on behind a name skips word characters only, and the search stops at none of them. -/
theorem firstPlace?_placedFrom {mark : Char} (hmark : mark = ':' ∨ mark = '*') (start : Nat)
    {skipped : Nat} {text : List Char} (h : ∀ c ∈ text.take skipped, isWord c = true) :
    firstPlace? mark (placedFrom (start + (text.take skipped).length) (tokensFrom skipped text)) =
      (firstNamed? mark text).map (start + ·) := by
  -- `start` grows with the characters read, so that places stay those in the whole template.
  induction text generalizing start skipped with
  | nil => cases skipped <;> rfl
  | cons c rest ih =>
    have longer (word : List Char) :
        start + (c :: word).length = start + 1 + word.length := by
      rw [List.length_cons]
      omega
    cases skipped with
    | succ skipped =>
      obtain ⟨hc, hrest⟩ := List.forall_mem_cons.mp h
      have other : ¬ (c = mark ∧ startsWord rest = true) := by
        rintro ⟨rfl, -⟩
        obtain ⟨-, colon, asterisk⟩ := ne_mark_of_isWord hc
        exact hmark.elim colon asterisk
      rw [firstNamed?_shift other, ← ih (start + 1) hrest, List.take_succ_cons, longer]
      rfl
    | zero =>
      obtain ⟨t, n, front, spelled, word, marks⟩ := exists_front c rest
      rw [List.take_zero, List.length_nil, Nat.add_zero, front, placedFrom, firstPlace?_cons,
        spelled]
      by_cases found : t.mark? = some mark
      · rw [if_pos found, firstNamed?_cons, if_pos ((marks mark hmark).mp found)]
        rfl
      · have other : ¬ (c = mark ∧ startsWord rest = true) := by
          rwa [← marks mark hmark]
        rw [if_neg found, firstNamed?_shift other, ← ih (start + 1) word, longer]

/-- The search for a mark with a name behind it finds the first token that has the mark. -/
theorem firstNamed?_eq_firstPlace? {mark : Char} (hmark : mark = ':' ∨ mark = '*')
    (template : String) :
    firstNamed? mark template.toList = firstPlace? mark (namedPlaces template) := by
  have whole : firstPlace? mark (placedFrom 0 (tokens template)) =
      (firstNamed? mark template.toList).map (0 + ·) :=
    @firstPlace?_placedFrom mark hmark 0 0 template.toList (List.forall_mem_nil _)
  have named : (firstNamed? mark template.toList).map (0 + ·) =
      firstNamed? mark template.toList := by
    simp
  rw [← named, ← whole, namedPlaces, firstPlace?_filter]

end FragmentRouting.Template
