import FragmentRouting.Proofs.Template.Language
import FragmentRouting.Proofs.Template.Pairing

/-!
# Compiled templates

A template is compiled by way of its tokens and of the trees that its parentheses make of them. What
comes out is told by its characters alone:

* `meaningful_iff_tokens`: a template is meaningful if its tokens are, in which parentheses are
  balanced and asterisks have something to repeat;
* `exists_items_iff`: the templates with items are the meaningful ones;
* `items?_eq_some_iff`: the items of a template are those that it means.
-/

namespace FragmentRouting.Template

open Text (isWord)

/-! ## Tokens -/

/-- How many parentheses are open behind the tokens, unless one is closed that was not opened. -/
def openAfter? : Nat → List Token → Option Nat
  | depth, [] => some depth
  | depth, .opening :: rest => openAfter? (depth + 1) rest
  | 0, .closing :: _ => none
  | depth + 1, .closing :: rest => openAfter? depth rest
  | depth, _ :: rest => openAfter? depth rest

/-- Whether an asterisk behind the token repeats something. -/
def Token.isRepeatable : Token → Bool
  | char _ | segment _ | splat _ => true
  | star | opening | closing => false

/-- Whether every asterisk among the tokens repeats something. -/
def tokensRepeat : Bool → List Token → Bool
  | _, [] => true
  | before, t :: rest => (t ≠ .star || before) && tokensRepeat t.isRepeatable rest

theorem openAfter?_ofChar (depth : Nat) (c : Char) (rest : List Char) (symbols : List Token)
    (behind : ∀ depth, openAfter? depth symbols = depthAfter? depth rest) :
    openAfter? depth (.ofChar c :: symbols) = depthAfter? depth (c :: rest) := by
  unfold Token.ofChar
  split_ifs with star opens closes
  · simp [openAfter?, depthAfter?, star, behind]
  · simp [openAfter?, depthAfter?, opens, behind]
  · cases depth <;> simp [openAfter?, depthAfter?, closes, behind]
  · simp [openAfter?, depthAfter?, opens, closes, behind]

/-- Names have no parentheses, so those of a text are those of its tokens. -/
theorem openAfter?_tokensFrom {skipped : Nat} {text : List Char}
    (h : ∀ c ∈ text.take skipped, isWord c = true) (depth : Nat) :
    openAfter? depth (tokensFrom skipped text) = depthAfter? depth text := by
  induction text generalizing skipped depth with
  | nil => cases skipped <;> rfl
  | cons c rest ih =>
    cases skipped with
    | succ skipped =>
      rw [List.take_succ_cons, List.forall_mem_cons] at h
      have plain := not_or.mp (not_isParenthesis_of_isWord h.1)
      simpa [tokensFrom, depthAfter?, plain.1, plain.2] using ih h.2 depth
    | zero =>
      have behind := ih (le_length_takeWhile_iff.mp (Nat.le_refl (rest.takeWhile isWord).length)).2
      simp only [tokensFrom]
      split
      · rename_i segment
        simpa [openAfter?, depthAfter?, segment.1] using behind depth
      · split
        · rename_i splat
          simpa [openAfter?, depthAfter?, splat.1] using behind depth
        · exact openAfter?_ofChar depth c rest _ (ih (List.forall_mem_nil _))

/-- A name can be repeated, and none of its characters repeats anything. -/
theorem tokensRepeat_tokensFrom {skipped : Nat} {text : List Char}
    (h : ∀ c ∈ text.take skipped, isWord c = true) {before : Bool}
    (named : skipped ≠ 0 → before = true) :
    tokensRepeat before (tokensFrom skipped text) = starsRepeat before text := by
  induction text generalizing skipped before with
  | nil => cases skipped <;> rfl
  | cons c rest ih =>
    cases skipped with
    | succ skipped =>
      rw [List.take_succ_cons, List.forall_mem_cons] at h
      obtain rfl := named (Nat.succ_ne_zero _)
      simpa [tokensFrom, starsRepeat, isRepeatable_of_isWord h.1] using ih h.2 fun _ => rfl
    | zero =>
      have word := (le_length_takeWhile_iff.mp (Nat.le_refl (rest.takeWhile isWord).length)).2
      have behind : tokensRepeat true (tokensFrom (rest.takeWhile isWord).length rest) =
          starsRepeat true rest := ih word fun _ => rfl
      simp only [tokensFrom, takeWhile_isWord_ne_nil]
      split
      · rename_i segment
        simpa [tokensRepeat, starsRepeat, Token.isRepeatable, isRepeatable, segment.1] using behind
      · rename_i noSegment
        split
        · rename_i splat
          rw [splat.1, starsRepeat, starsRepeat_of_startsWord splat.2, ← behind]
          simp [tokensRepeat, Token.isRepeatable, splat.2]
        · rename_i noSplat
          have plain {before : Bool} :
              tokensRepeat before (tokensFrom 0 rest) = starsRepeat before rest :=
            ih (List.forall_mem_nil _) fun absurd => (absurd rfl).elim
          unfold Token.ofChar
          split_ifs with star opens closes
          · have unnamed : startsWord rest = false := by simpa [star] using noSplat
            simp [tokensRepeat, starsRepeat, Token.isRepeatable, isRepeatable, star, unnamed, plain]
          · simp [tokensRepeat, starsRepeat, Token.isRepeatable, isRepeatable, opens, plain]
          · simp [tokensRepeat, starsRepeat, Token.isRepeatable, isRepeatable, closes, plain]
          · simp [tokensRepeat, starsRepeat, Token.isRepeatable, isRepeatable, star, opens, closes,
              plain]

theorem meaningful_iff_tokens (template : String) :
    Meaningful template.toList ↔
      openAfter? 0 (tokens template) = some 0 ∧ tokensRepeat false (tokens template) = true := by
  have unread : ∀ c ∈ template.toList.take 0, isWord c = true := List.forall_mem_nil _
  rw [meaningful_iff, Balanced, tokens, openAfter?_tokensFrom unread,
    tokensRepeat_tokensFrom unread fun absurd => (absurd rfl).elim]

/-! ## Trees -/

theorem partOf?_group_eq_some_iff {body : List (Nested Token)} {part : Part} :
    partOf? (.group body) = some part ↔
      ∃ parts items, partsOf? body = some parts ∧ itemsOfParts? parts = some items ∧
        part = .optional items := by
  simp [partOf?, Option.bind_eq_some_iff, @eq_comm _ part]

theorem partsOf?_cons_eq_some_iff {node : Nested Token} {rest : List (Nested Token)}
    {parts : List Part} :
    partsOf? (node :: rest) = some parts ↔
      ∃ part more, partOf? node = some part ∧ partsOf? rest = some more ∧
        parts = part :: more := by
  simp [partsOf?, Option.bind_eq_some_iff, @eq_comm _ parts]

mutual

theorem openAfter?_of_partOf? {node : Nested Token} {part : Part} (h : partOf? node = some part)
    (depth : Nat) (rest : List Token) :
    openAfter? depth (node.row.map Prod.fst ++ rest) = openAfter? depth rest := by
  cases node with
  | leaf t =>
    cases t with
    | char _ | segment _ | splat _ | star => rfl
    | opening | closing => cases h
  | group body =>
    obtain ⟨parts, items, hparts, -, rfl⟩ := partOf?_group_eq_some_iff.mp h
    simp [Nested.row, openAfter?, openAfter?_of_partsOf? hparts]

/-- Trees with a meaning leave no parenthesis open and close none of those around them. -/
theorem openAfter?_of_partsOf? {row : List (Nested Token)} {parts : List Part}
    (h : partsOf? row = some parts) (depth : Nat) (rest : List Token) :
    openAfter? depth ((rowOf row).map Prod.fst ++ rest) = openAfter? depth rest := by
  cases row with
  | nil => rfl
  | cons node more =>
    obtain ⟨part, others, hpart, hothers, rfl⟩ := partsOf?_cons_eq_some_iff.mp h
    rw [rowOf, List.map_append, List.append_assoc, openAfter?_of_partOf? hpart,
      openAfter?_of_partsOf? hothers]

end

theorem tokensRepeat_of_false {symbols : List Token} (h : tokensRepeat false symbols = true) :
    tokensRepeat true symbols = true := by
  cases symbols with
  | nil => rfl
  | cons t rest =>
    have behind := (Bool.and_eq_true_iff.mp h).2
    simpa [tokensRepeat] using behind

theorem tokensRepeat_closing (before : Bool) (symbols rest : List Token) :
    tokensRepeat before (symbols ++ .closing :: rest) =
      (tokensRepeat before symbols && tokensRepeat false rest) := by
  induction symbols generalizing before with
  | nil => simp [tokensRepeat, Token.isRepeatable]
  | cons t symbols ih => simp [tokensRepeat, ih, Bool.and_assoc]

theorem isRepeatable_of_part? {t : Token} {a : Atom} (h : t.part? = some (.atom a)) :
    t ≠ .star ∧ t.isRepeatable = true := by
  cases t <;> cases h <;> exact ⟨by simp, rfl⟩

theorem exists_leaf_of_star {row : List (Nested Token)} {others : List Part}
    (h : partsOf? row = some (.star :: others)) :
    ∃ rest, row = .leaf .star :: rest ∧ partsOf? rest = some others := by
  cases row with
  | nil => cases h
  | cons node rest =>
    obtain ⟨part, more, hpart, hmore, same⟩ := partsOf?_cons_eq_some_iff.mp h
    obtain ⟨rfl, rfl⟩ := List.cons.inj same
    cases node with
    | leaf t =>
      obtain rfl : t = .star := by cases t <;> cases hpart; rfl
      exact ⟨rest, rfl, hmore⟩
    | group body =>
      obtain ⟨_, _, -, -, same⟩ := partOf?_group_eq_some_iff.mp hpart
      cases same

/-- Behind an atom stand parts that can be compiled, or an asterisk and such parts. -/
theorem itemsOfParts?_behind_atom {a : Atom} {more : List Part} {items : List Item}
    (h : itemsOfParts? (.atom a :: more) = some items) :
    (∃ rest, itemsOfParts? more = some rest ∧ items = .once a :: rest) ∨
      ∃ others rest, more = .star :: others ∧ itemsOfParts? others = some rest ∧
        items = .many a :: rest := by
  cases more with
  | nil =>
    cases h
    exact .inl ⟨[], rfl, rfl⟩
  | cons part others =>
    cases part with
    | star =>
      obtain ⟨rest, hrest, rfl⟩ := Option.map_eq_some_iff.mp h
      exact .inr ⟨others, rest, rfl, hrest, rfl⟩
    | atom _ | optional _ =>
      obtain ⟨rest, hrest, rfl⟩ := Option.map_eq_some_iff.mp h
      exact .inl ⟨rest, hrest, rfl⟩

/-- In trees with items, every asterisk repeats an atom. -/
theorem tokensRepeat_of_items {row : List (Nested Token)} {parts : List Part} {items : List Item}
    (hparts : partsOf? row = some parts) (hitems : itemsOfParts? parts = some items) :
    tokensRepeat false ((rowOf row).map Prod.fst) = true := by
  match row with
  | [] => rfl
  | .group body :: rest =>
    obtain ⟨part, more, hpart, hmore, rfl⟩ := partsOf?_cons_eq_some_iff.mp hparts
    obtain ⟨inside, inner, hinside, hinner, rfl⟩ := partOf?_group_eq_some_iff.mp hpart
    obtain ⟨others, hothers, -⟩ := Option.map_eq_some_iff.mp hitems
    have body_repeats := tokensRepeat_of_items hinside hinner
    have rest_repeats := tokensRepeat_of_items hmore hothers
    simp [rowOf, Nested.row, tokensRepeat, Token.isRepeatable, tokensRepeat_closing, body_repeats,
      rest_repeats]
  | .leaf t :: rest =>
    obtain ⟨part, more, hpart, hmore, rfl⟩ := partsOf?_cons_eq_some_iff.mp hparts
    have hpart : t.part? = some part := hpart
    cases part with
    | star => cases hitems
    | optional _ => cases t <;> cases hpart
    | atom a =>
      obtain ⟨other, repeatable⟩ := isRepeatable_of_part? hpart
      rcases itemsOfParts?_behind_atom hitems with ⟨_, hrest, -⟩ | ⟨others, _, rfl, hrest, -⟩
      · have behind := tokensRepeat_of_false (tokensRepeat_of_items hmore hrest)
        simp [rowOf, Nested.row, tokensRepeat, other, repeatable, behind]
      · obtain ⟨rest', rfl, hothers⟩ := exists_leaf_of_star hmore
        have behind := tokensRepeat_of_items hothers hrest
        have star : Token.star.isRepeatable = false := rfl
        simp [rowOf, Nested.row, tokensRepeat, other, repeatable, star, behind]
termination_by sizeOf row

/-- The templates with items are the meaningful ones. -/
theorem exists_items_iff {template : String} :
    (∃ items, items? template = some items) ↔ Meaningful template.toList := by
  constructor
  · rintro ⟨items, h⟩
    obtain ⟨parts, hparts, hitems⟩ := Option.bind_eq_some_iff.mp h
    have row_eq : (rowOf (nodes template)).map Prod.fst = tokens template :=
      map_fst_templateRow template
    rw [meaningful_iff_tokens, ← row_eq]
    exact ⟨by simpa [openAfter?] using openAfter?_of_partsOf? hparts 0 [],
      tokensRepeat_of_items hparts hitems⟩
  · intro h
    obtain ⟨items, hitems⟩ := meaningful_iff_means.mp h
    exact ⟨items, hitems.items?_eq⟩

/-- The items of a template are those that it means. -/
theorem items?_eq_some_iff {template : String} {items : List Item} :
    items? template = some items ↔ Means template.toList items := by
  constructor
  · intro h
    obtain ⟨items', hitems'⟩ := meaningful_iff_means.mp (exists_items_iff.mp ⟨items, h⟩)
    obtain rfl : items = items' := Option.some.inj (h.symm.trans hitems'.items?_eq)
    exact hitems'
  · intro h
    exact h.items?_eq

theorem items?_eq_none_iff {template : String} :
    items? template = none ↔ ¬ Meaningful template.toList := by
  rw [← exists_items_iff, ← Option.isSome_iff_exists, Option.not_isSome_iff_eq_none]

end FragmentRouting.Template
