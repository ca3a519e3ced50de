import FragmentRouting.Proofs.Query.Noninterference

/-!
# The shape of what is read

A query is read into texts, lists and blocks:

* `Parameter.Shaped`: lists hold texts only, and blocks have something in them;
* `shaped_foldl`: every pair keeps this shape, except that a list may begin with a block;
* `isMixed_decode_iff`: a list begins with a block exactly where texts come behind a pair below
  their path;
* `decode_shaped`: so the shape is kept by all other queries, and by no query with such a path.
-/

namespace FragmentRouting

open Entries (item? put)

/-- What reading a query is meant to make: texts, lists of texts, and blocks with something in
them and one item for each name. If `mixed` holds, a list may also begin with such a block. -/
inductive Parameter.Shaped (mixed : Prop) : Parameter → Prop
  | text (s : String) : Shaped mixed (.text s)
  | list (texts : List String) : Shaped mixed (.list (texts.map .text))
  | mixed (allowed : mixed) {b : Block} (first : Shaped mixed (.block b)) (texts : List String) :
      Shaped mixed (.list (.block b :: texts.map .text))
  | block {b : Block} (nonempty : b ≠ []) (distinct : (b.map Prod.fst).Nodup)
      (items : ∀ e ∈ b, Shaped mixed e.2) : Shaped mixed (.block b)

/-- The same of a block that may also be empty. -/
def Block.Shaped (mixed : Prop) (b : Block) : Prop :=
  b = [] ∨ Parameter.Shaped mixed (.block b)

variable {mixed : Prop}

namespace Block

theorem Shaped.item {b : Block} (h : b.Shaped mixed) {name : String} {p : Parameter}
    (hp : item? name b = some p) : p.Shaped mixed := by
  rcases h with rfl | h
  · cases hp
  · cases h with
    | block _ _ items => exact items _ (Entries.mem_of_item? hp)

theorem Shaped.inner {b : Block} (h : b.Shaped mixed) (name : String) :
    (inner name b).Shaped mixed := by
  unfold Block.inner
  cases hp : item? name b with
  | none => exact .inl rfl
  | some p =>
    cases p with
    | text _ | list _ => exact .inl rfl
    | block entries => exact .inr (h.item hp)

theorem Shaped.put {b : Block} (h : b.Shaped mixed) (name : String) {p : Parameter}
    (hp : p.Shaped mixed) : Block.Shaped mixed (put name p b) := by
  refine .inr (.block (Entries.put_ne_nil _ _ _) ?_ ?_)
  · rcases h with rfl | h
    · simp [Entries.put]
    · cases h with
      | block _ distinct _ => exact Entries.nodup_put distinct name p
  · intro e he
    rcases Entries.mem_put he with rfl | he
    · exact hp
    · rcases h with rfl | h
      · cases he
      · cases h with
        | block _ _ items => exact items e he

theorem Shaped.at? {b : Block} (h : b.Shaped mixed) {path : List String} (hpath : path ≠ [])
    {p : Parameter} (hp : Block.at? path b = some p) : p.Shaped mixed := by
  induction path generalizing b with
  | nil => exact absurd rfl hpath
  | cons name path ih =>
    by_cases last : path = []
    · subst last
      rw [at?_singleton] at hp
      exact h.item hp
    · rw [← at?_inner last] at hp
      exact ih (h.inner name) last hp

/-- A block keeps its shape if what is put at a path has it. -/
theorem Shaped.update {b : Block} (h : b.Shaped mixed) {path : List String}
    {change : Option Parameter → Parameter} (hchange : (change (Block.at? path b)).Shaped mixed) :
    Block.Shaped mixed (update change path b) := by
  induction path generalizing b with
  | nil => exact h
  | cons name path ih =>
    by_cases last : path = []
    · subst last
      rw [at?_singleton] at hchange
      exact h.put name hchange
    · rw [← at?_inner last] at hchange
      rw [update_cons last]
      have inside := (ih (h.inner name) hchange).resolve_left (update_ne_nil last _)
      exact h.put name inside

end Block

namespace Query

open Block (at?)

variable {delimiter : Delimiter} {path : List String}

theorem shaped_absorb {raw : String} {current : Option Parameter}
    (h : ∀ p, current = some p → p.Shaped True) :
    (absorb delimiter raw current).Shaped True := by
  unfold absorb
  cases delimiter.items? raw with
  | some items =>
    have texts : Parameter.Shaped True (.list ((items.map Percent.decode).map .text)) := .list _
    rwa [List.map_map] at texts
  | none =>
    rcases current with _ | s | items | entries
    · exact .text _
    · dsimp only
      split
      · exact .text _
      · exact .list [s, Percent.decode raw]
    · cases h _ rfl with
      | list texts =>
        have more : Parameter.Shaped True (.list ((texts ++ [Percent.decode raw]).map .text)) :=
          .list _
        rwa [List.map_append] at more
      | mixed _ first texts =>
        have more := Parameter.Shaped.mixed trivial first (texts ++ [Percent.decode raw])
        rwa [List.map_append] at more
    · exact .mixed trivial (h _ rfl) [Percent.decode raw]

theorem shaped_addPair {b : Block} (h : b.Shaped True) {p : Pair} (hp : p.path ≠ []) :
    (addPair delimiter b p).Shaped True :=
  h.update (shaped_absorb fun _ => h.at? hp)

theorem shaped_foldl {row : List Pair} (h : ∀ p ∈ row, p.path ≠ []) {b : Block}
    (hb : b.Shaped True) : Block.Shaped True (row.foldl (addPair delimiter) b) := by
  induction row generalizing b with
  | nil => exact hb
  | cons p row ih =>
    obtain ⟨hp, hrow⟩ := List.forall_mem_cons.mp h
    exact ih hrow (shaped_addPair hb hp)

/-! ## Lists that begin with a block -/

/-- A block. -/
def IsBlock (p : Option Parameter) : Prop :=
  ∃ inner, p = some (.block inner)

/-- A list that begins with a block. -/
def IsMixed (p : Option Parameter) : Prop :=
  ∃ inner items, p = some (.list (.block inner :: items))

theorem not_isMixed_of_shaped {p : Parameter} (h : p.Shaped False) : ¬ IsMixed (some p) := by
  rintro ⟨inner, items, e⟩
  cases e
  generalize hlist : Parameter.list (.block inner :: items) = p at h
  cases h with
  | text _ | block _ _ _ => cases hlist
  | list texts => cases texts <;> simp at hlist
  | mixed allowed _ _ => exact allowed

/-- A parameter without the intended shape leads to a list that begins with a block. -/
theorem shaped_or_exists_mixed {p : Parameter} (h : p.Shaped True) :
    p.Shaped False ∨ ∃ path, IsMixed (p.at? path) := by
  induction h with
  | text s => exact .inl (.text s)
  | list texts => exact .inl (.list texts)
  | mixed _ _ texts _ => exact .inr ⟨[], _, _, rfl⟩
  | @block b nonempty distinct _ ih =>
    by_cases sound : ∀ e ∈ b, e.2.Shaped False
    · exact .inl (.block nonempty distinct sound)
    · simp only [not_forall] at sound
      obtain ⟨e, he, unsound⟩ := sound
      obtain ⟨path, hpath⟩ := (ih e he).resolve_left unsound
      refine .inr ⟨e.1 :: path, ?_⟩
      rwa [Parameter.at?, Entries.item?_of_mem distinct he]

/-- A block has the intended shape if no path leads to a list that begins with a block. -/
theorem shaped_iff {b : Block} (h : b.Shaped True) :
    b.Shaped False ↔ ∀ path, ¬ IsMixed (at? path b) := by
  constructor
  · rintro hb path ⟨inner, items, hpath⟩
    cases path with
    | nil => cases hpath
    | cons name path =>
      exact not_isMixed_of_shaped (hb.at? (List.cons_ne_nil _ _) hpath) ⟨inner, items, rfl⟩
  · intro none
    rcases h with rfl | h
    · exact .inl rfl
    · refine .inr ((shaped_or_exists_mixed h).resolve_right ?_)
      rintro ⟨path, hpath⟩
      exact none path hpath

/-! ## Pairs behind pairs below them -/

theorem not_isMixed_texts (texts : List String) :
    ¬ IsMixed (some (.list (texts.map .text))) :=
  not_isMixed_of_shaped (.list texts)

/-- Absorbing a raw value gives a list that begins with a block only if the value is a text and
joins a block, or such a list. -/
theorem isMixed_absorb {raw : String} {current : Option Parameter} :
    IsMixed (some (absorb delimiter raw current)) ↔
      delimiter.items? raw = none ∧ (IsBlock current ∨ IsMixed current) := by
  unfold absorb
  cases delimiter.items? raw with
  | some items =>
    have texts := not_isMixed_texts (items.map Percent.decode)
    rw [List.map_map] at texts
    exact ⟨fun h => absurd h texts, fun h => by cases h.1⟩
  | none =>
    simp only [true_and]
    rcases current with _ | s | items | entries
    · simp [IsMixed, IsBlock]
    · dsimp only
      split <;> simp [IsMixed, IsBlock]
    · cases items <;> simp [IsMixed, IsBlock]
    · simp [IsMixed, IsBlock]

/-- Of the pairs on paths related to this one, the last one below the path is followed by pairs
at the path itself, and all of these are single texts. -/
def Collides (delimiter : Delimiter) (path : List String) (row : List Pair) : Prop :=
  ∃ front below texts, (row.filter fun p => Related path p.path) = front ++ below :: texts ∧
    (path <+: below.path ∧ path ≠ below.path) ∧ texts ≠ [] ∧
    ∀ p ∈ texts, p.path = path ∧ delimiter.items? p.raw = none

/-- Among pairs on related paths, one below the path is the only way to a block there. -/
theorem isBlock_addPair {p : Pair} (hp : p.path ≠ []) (related : Related path p.path)
    {b : Block} (h : IsBlock (at? path (addPair delimiter b p))) :
    path <+: p.path ∧ path ≠ p.path := by
  obtain ⟨inner, h⟩ := h
  rcases related.cases with rfl | ⟨rest, hrest, below⟩ | ⟨rest, hrest, above⟩
  · rw [at?_addPair_self hp] at h
    exact absurd (Option.some.inj h) (absorb_ne_block _ _ _)
  · exact ⟨⟨rest, below.symm⟩, fun same => hrest (List.append_right_eq_self.mp (same ▸ below.symm))⟩
  · rw [at?_addPair_above hp hrest above] at h
    cases h

theorem isMixed_foldl {texts : List Pair} (h : ∀ p ∈ texts, p.path = path ∧
    delimiter.items? p.raw = none) (hpath : path ≠ []) {b : Block}
    (start : IsBlock (at? path b) ∨ IsMixed (at? path b)) (nonempty : texts ≠ []) :
    IsMixed (at? path (texts.foldl (addPair delimiter) b)) := by
  induction texts generalizing b with
  | nil => exact absurd rfl nonempty
  | cons p texts ih =>
    obtain ⟨⟨rfl, single⟩, htexts⟩ := List.forall_mem_cons.mp h
    have joined : IsMixed (at? p.path (addPair delimiter b p)) := by
      rw [at?_addPair_self hpath]
      exact isMixed_absorb.mpr ⟨single, start⟩
    by_cases last : texts = []
    · rwa [last]
    · exact ih htexts (.inr joined) last

theorem blockOf_concat (row : List Pair) (p : Pair) :
    blockOf delimiter (row ++ [p]) = addPair delimiter (blockOf delimiter row) p := by
  rw [blockOf, List.foldl_append]
  rfl

theorem at?_nil_of_ne_nil (hpath : path ≠ []) : at? path [] = none := by
  obtain ⟨name, path, rfl⟩ := List.exists_cons_of_ne_nil hpath
  rfl

/-- A list that begins with a block was left by texts behind a pair below their path. The induction
takes the last pair away, as only that one decides what is at the path. -/
theorem exists_of_isMixed_blockOf {row : List Pair}
    (h : ∀ p ∈ row, p.path ≠ [] ∧ Related path p.path)
    (mixed : IsMixed (at? path (blockOf delimiter row))) :
    ∃ front below texts, row = front ++ below :: texts ∧
      (path <+: below.path ∧ path ≠ below.path) ∧ texts ≠ [] ∧
      ∀ p ∈ texts, p.path = path ∧ delimiter.items? p.raw = none := by
  induction row using List.reverseRecOn with
  | nil =>
    obtain ⟨inner, items, mixed⟩ := mixed
    cases path <;> cases mixed
  | append_singleton row p ih =>
    rw [List.forall_mem_append] at h
    obtain ⟨hrow, hlast⟩ := h
    obtain ⟨hp, related⟩ := hlast p (List.mem_singleton_self p)
    rw [blockOf_concat] at mixed
    rcases related.cases with rfl | ⟨rest, hrest, below⟩ | ⟨rest, hrest, above⟩
    · rw [at?_addPair_self hp] at mixed
      obtain ⟨single, before⟩ := isMixed_absorb.mp mixed
      have own : ∀ q ∈ [p], q.path = p.path ∧ delimiter.items? q.raw = none := by
        simpa using single
      rcases before with block | mixed
      · rcases List.eq_nil_or_concat row with rfl | ⟨front, q, rfl⟩
        · obtain ⟨inner, block⟩ := block
          rw [blockOf, List.foldl_nil, at?_nil_of_ne_nil hp] at block
          cases block
        · rw [List.concat_eq_append] at block hrow ⊢
          obtain ⟨hq, related⟩ := hrow q (by simp)
          rw [blockOf_concat] at block
          exact ⟨front, q, [p], by simp, isBlock_addPair hq related block, by simp, own⟩
      · obtain ⟨front, below, texts, rfl, hbelow, -, htexts⟩ := ih hrow mixed
        refine ⟨front, below, texts ++ [p], by simp, hbelow, by simp, ?_⟩
        rw [List.forall_mem_append]
        exact ⟨htexts, own⟩
    · rw [at?_addPair_below hrest below] at mixed
      obtain ⟨inner, items, mixed⟩ := mixed
      cases mixed
    · rw [at?_addPair_above hp hrest above] at mixed
      obtain ⟨inner, items, mixed⟩ := mixed
      cases mixed

/-- A path leads to a list that begins with a block exactly if texts collide with a pair below. -/
theorem isMixed_decode_iff (text : String) :
    IsMixed (at? path (decode text delimiter)) ↔ Collides delimiter path (pairs text) := by
  have paths : ∀ p ∈ pairs text, p.path ≠ [] := fun p => path_ne_nil_of_mem_pairs
  have same : at? path (decode text delimiter) = at? path
      (blockOf delimiter ((pairs text).filter fun p => Related path p.path)) :=
    at?_foldl_related paths rfl
  have related : ∀ p ∈ (pairs text).filter fun p => Related path p.path,
      p.path ≠ [] ∧ Related path p.path := by
    intro p hp
    obtain ⟨hp, related⟩ := List.mem_filter.mp hp
    exact ⟨paths p hp, of_decide_eq_true related⟩
  rw [same]
  constructor
  · exact exists_of_isMixed_blockOf related
  · rintro ⟨front, below, texts, hrow, ⟨⟨rest, hbelow⟩, other⟩, nonempty, htexts⟩
    have hrest : rest ≠ [] := by
      rintro rfl
      exact other ((List.append_nil path).symm.trans hbelow)
    have hpath : path ≠ [] := by
      obtain ⟨p, texts, rfl⟩ := List.exists_cons_of_ne_nil nonempty
      obtain ⟨hp, -⟩ := related p (by simp [hrow])
      exact (htexts p List.mem_cons_self).1 ▸ hp
    have block (b : Block) : IsBlock (at? path (addPair delimiter b below)) :=
      ⟨_, at?_addPair_below hrest hbelow.symm b⟩
    rw [hrow, blockOf, List.foldl_append, List.foldl_cons]
    exact isMixed_foldl htexts hpath (.inl (block _)) nonempty

/-- Whatever a query is, it is read into texts, lists that hold texts only, except perhaps for a
block in front, and blocks with something in them. No list begins with a block exactly if no texts
collide with a pair below their path. -/
theorem decode_shaped (text : String) (delimiter : Delimiter) :
    (decode text delimiter).Shaped True ∧
      ((decode text delimiter).Shaped False ↔
        ∀ path, ¬ Collides delimiter path (pairs text)) := by
  have shaped : (decode text delimiter).Shaped True :=
    shaped_foldl (fun p => path_ne_nil_of_mem_pairs) (.inl rfl)
  refine ⟨shaped, (shaped_iff shaped).trans ?_⟩
  simp only [isMixed_decode_iff]

/-- A text at a path joins the block that a pair below the path has made. -/
theorem block_joined_by_text :
    decode "a.b=1&a=2" = [("a", .list [.block [("b", .text "1")], .text "2"])] ∧
      ¬ (decode "a.b=1&a=2").Shaped False := by
  have row : pairs "a.b=1&a=2" = [⟨["a", "b"], "1"⟩, ⟨["a"], "2"⟩] := by decide +kernel
  have texts : Percent.decode "1" = "1" ∧ Percent.decode "2" = "2" := by decide +kernel
  have single : Delimiter.items? (some "|") "1" = none ∧
      Delimiter.items? (some "|") "2" = none := by decide +kernel
  have read : decode "a.b=1&a=2" = [("a", .list [.block [("b", .text "1")], .text "2"])] := by
    simp [decode, row, blockOf, addPair, absorb, single, texts, Block.update, Block.inner,
      item?, put]
  refine ⟨read, ?_⟩
  intro shaped
  rw [read] at shaped
  exact not_isMixed_of_shaped (shaped.item (rfl : item? "a" _ = some _)) ⟨_, _, rfl⟩

end Query

end FragmentRouting
