import FragmentRouting.Proofs.Query.Repetition
import FragmentRouting.Proofs.Query.Shape

/-!
# Encoding what was read

What a query without a list delimiter is read into can be encoded again, and is read back as it was:

* `holds_at?_blockOf`: what every pair puts at its path, and what it makes of the paths above, is
  all that stands at a path;
* `noMark_of_mem_path`: the names on the path of a pair hold no separator;
* `Parameter.Settled`: the parameters that are read as they were written;
* `settled_decode_iff`: what a query is read into is one of them, unless a list holds a block or a
  name a list marker;
* `decode_encode_decoded`: encoding and reading again changes nothing.
-/

namespace FragmentRouting

open Entries (item?)

namespace Query

open Block (at?)

variable {delimiter : Delimiter}

/-! ## What stands at a path -/

/-- Whatever stands at a path was put there as the item of a pair, or as a block on the way to one.
The induction takes the last pair away, as only that one decides what is at the path. -/
theorem holds_at?_blockOf (Holds : List String → Parameter → Prop) {row : List Pair}
    (paths : ∀ q ∈ row, q.path ≠ [])
    (own : ∀ q ∈ row, ∀ current, (∀ p, current = some p → Holds q.path p) →
      Holds q.path (absorb delimiter q.raw current))
    (above : ∀ q ∈ row, ∀ path inner, path <+: q.path → Holds path (.block inner))
    {path : List String} (hpath : path ≠ []) {p : Parameter}
    (found : at? path (blockOf delimiter row) = some p) : Holds path p := by
  induction row using List.reverseRecOn generalizing p with
  | nil =>
    rw [blockOf, List.foldl_nil, at?_nil_of_ne_nil hpath] at found
    cases found
  | append_singleton row q ih =>
    rw [List.forall_mem_append] at paths own above
    have before {p : Parameter} (found : at? path (blockOf delimiter row) = some p) :
        Holds path p := ih paths.1 own.1 above.1 found
    have hq := paths.2 q (List.mem_singleton_self q)
    rw [blockOf_concat] at found
    by_cases related : Related path q.path
    · rcases related.cases with rfl | ⟨rest, hrest, below⟩ | ⟨rest, hrest, higher⟩
      · rw [at?_addPair_self hq] at found
        obtain rfl := Option.some.inj found
        exact own.2 q (List.mem_singleton_self q) _ fun p => before
      · rw [at?_addPair_below hrest below] at found
        obtain rfl := Option.some.inj found
        exact above.2 q (List.mem_singleton_self q) path _ ⟨rest, below.symm⟩
      · rw [at?_addPair_above hq hrest higher] at found
        cases found
    · rw [at?_addPair_unrelated related] at found
      exact before found

/-- Only the path of a pair leads anywhere. -/
theorem exists_pair_of_at? {row : List Pair} (paths : ∀ q ∈ row, q.path ≠ [])
    {path : List String} (hpath : path ≠ []) {p : Parameter}
    (found : at? path (blockOf delimiter row) = some p) : ∃ q ∈ row, path <+: q.path :=
  holds_at?_blockOf (fun path _ => ∃ q ∈ row, path <+: q.path) paths
    (fun q hq _ _ => ⟨q, hq, List.prefix_rfl⟩) (fun q hq _ _ leads => ⟨q, hq, leads⟩)
    hpath found

/-- Several items, of which the first is no empty text. -/
def Several (items : List Parameter) : Prop :=
  ∃ first second more, items = first :: second :: more ∧ first ≠ .text ""

theorem several_absorb {raw : String} (single : delimiter.items? raw = none)
    {current : Option Parameter} (h : ∀ items, current = some (.list items) → Several items)
    {items : List Parameter} (made : absorb delimiter raw current = .list items) :
    Several items := by
  unfold absorb at made
  rw [single] at made
  rcases current with _ | s | old | entries
  · cases made
  · dsimp only at made
    split at made
    · cases made
    · rename_i present
      cases made
      refine ⟨_, _, [], rfl, ?_⟩
      rintro e
      cases e
      exact present rfl
  · cases made
    obtain ⟨first, second, more, rfl, present⟩ := h old rfl
    exact ⟨first, second, more ++ [.text (Percent.decode raw)], rfl, present⟩
  · cases made
    exact ⟨_, _, [], rfl, Parameter.noConfusion⟩

/-- Without a delimiter, a list is only made of several texts. -/
theorem several_of_at? (off : delimiter.enabled? = none) {row : List Pair}
    (paths : ∀ q ∈ row, q.path ≠ []) {path : List String} {items : List Parameter}
    (found : at? path (blockOf delimiter row) = some (.list items)) : Several items := by
  cases path with
  | nil => cases found
  | cons name path =>
    refine holds_at?_blockOf (fun _ p => ∀ items, p = .list items → Several items) paths
      ?_ ?_ (List.cons_ne_nil name path) found items rfl
    · intro q _ current before items made
      exact several_absorb (items?_of_off off q.raw)
        (fun old hold => before (.list old) hold old rfl) made
    · intro q _ path inner _ items e
      cases e

/-! ## Names -/

theorem subset_of_mem_splitOn {mark : Char} {text piece : List Char}
    (h : piece ∈ text.splitOn mark) : piece ⊆ text := by
  induction text generalizing piece with
  | nil =>
    obtain rfl : piece = [] := by simpa [List.splitOn_nil] using h
    exact List.nil_subset _
  | cons c rest ih =>
    rw [List.splitOn_cons_eq_if_modifyHead] at h
    split at h
    · rcases List.mem_cons.mp h with rfl | h
      · exact List.nil_subset _
      · exact List.subset_cons_of_subset c (ih h)
    · obtain ⟨first, more, hsplit⟩ := List.exists_cons_of_ne_nil (List.splitOn_ne_nil mark rest)
      rw [hsplit] at h ih
      rcases List.mem_cons.mp h with rfl | h
      · exact List.cons_subset_cons c (ih List.mem_cons_self)
      · exact List.subset_cons_of_subset c (ih (List.mem_cons_of_mem _ h))

theorem cutAt_fst (mark : Char) (text : List Char) :
    mark ∉ (Text.cutAt mark text).1 ∧ (Text.cutAt mark text).1 ⊆ text := by
  induction text with
  | nil => simp [Text.cutAt]
  | cons c rest ih =>
    rw [Text.cutAt]
    split
    · simp
    · rename_i other
      have hmark : mark ∉ c :: (Text.cutAt mark rest).1 := by
        rw [List.mem_cons, not_or]
        exact ⟨Ne.symm other, ih.1⟩
      exact ⟨hmark, List.cons_subset_cons c ih.2⟩

theorem unmarkedFrom_subset (skipped : Nat) (key : List Char) : unmarkedFrom skipped key ⊆ key := by
  induction key generalizing skipped with
  | nil => simp [unmarkedFrom]
  | cons c rest ih =>
    cases skipped with
    | succ skipped => exact List.subset_cons_of_subset c (ih skipped)
    | zero =>
      rw [unmarkedFrom]
      split
      · exact List.cons_subset_cons c (ih 0)
      · exact List.subset_cons_of_subset c (ih _)

/-- The names on the path of a pair hold none of the characters that end them. -/
theorem noMark_of_mem_path {text : String} {q : Pair} (hq : q ∈ pairs text) {name : String}
    (hname : name ∈ q.path) :
    '&' ∉ name.toList ∧ '=' ∉ name.toList ∧ '.' ∉ name.toList := by
  obtain ⟨chars, hchars, rfl⟩ := List.mem_map.mp hq
  obtain ⟨piece, hpiece, rfl⟩ := List.mem_map.mp hname
  have noPair : '&' ∉ chars := not_mem_of_mem_splitOn (List.mem_of_mem_filter hchars)
  obtain ⟨noValue, inChars⟩ := cutAt_fst '=' chars
  have inKey : piece ⊆ (Text.cutAt '=' chars).1 :=
    List.Subset.trans (subset_of_mem_splitOn hpiece) (unmarkedFrom_subset 0 _)
  rw [String.toList_ofList]
  exact ⟨fun h => noPair (inChars (inKey h)), fun h => noValue (inKey h),
    not_mem_of_mem_splitOn hpiece⟩

end Query

/-! ## Parameters that are read as they were written -/

open Query (PlainKey IsLeaf Encodable normalItem normalEntries repeatedLeaf markers)

/-- The parameters that are read as they were written where lists are repeated keys: texts, lists of
several texts that begin with no empty one, and blocks with something in them. -/
inductive Parameter.Settled : Parameter → Prop
  | text (s : String) : Settled (.text s)
  | list {first : String} (present : first ≠ "") (second : String) (more : List String) :
      Settled (.list ((first :: second :: more).map .text))
  | block {b : Block} (nonempty : b ≠ []) (distinct : (b.map Prod.fst).Nodup)
      (plain : ∀ e ∈ b, PlainKey e.1) (items : ∀ e ∈ b, Settled e.2) : Settled (.block b)

/-- Plain names lead from a settled parameter to settled ones. -/
theorem Parameter.Settled.at? {p q : Parameter} (h : p.Settled) {path : List String}
    (found : p.at? path = some q) : q.Settled ∧ ∀ name ∈ path, PlainKey name := by
  induction h generalizing path with
  | text s =>
    cases path with
    | nil => exact ⟨Option.some.inj found ▸ .text s, List.forall_mem_nil _⟩
    | cons name path => cases found
  | list present second more =>
    cases path with
    | nil => exact ⟨Option.some.inj found ▸ .list present second more, List.forall_mem_nil _⟩
    | cons name path => cases found
  | block nonempty distinct plain items ih =>
    cases path with
    | nil =>
      exact ⟨Option.some.inj found ▸ .block nonempty distinct plain items, List.forall_mem_nil _⟩
    | cons name path =>
      rw [Parameter.at?] at found
      obtain ⟨item, hitem, found⟩ := Option.bind_eq_some_iff.mp found
      have inside := Entries.mem_of_item? hitem
      obtain ⟨settled, names⟩ := ih _ inside found
      exact ⟨settled, List.forall_mem_cons.mpr ⟨plain _ inside, names⟩⟩

theorem Parameter.Settled.block_not_mem {items : List Parameter}
    (h : Parameter.Settled (.list items)) (inner : Block) : .block inner ∉ items := by
  cases h with
  | list present second more => simp

namespace Query

/-- A value that a mapping can hold and be encodable. -/
def Storable (v : Value) : Prop :=
  IsLeaf v ∨ ∃ entries, v = .map entries ∧ Encodable entries

theorem encodable_toEntries {b : Block} (distinct : (b.map Prod.fst).Nodup)
    (plain : ∀ e ∈ b, PlainKey e.1) (items : ∀ e ∈ b, Storable e.2.toValue) :
    Encodable (Parameter.toEntries b) := by
  induction b with
  | nil => exact .nil
  | cons e rest ih =>
    obtain ⟨fresh, distinct⟩ := List.nodup_cons.mp distinct
    obtain ⟨hkey, hkeys⟩ := List.forall_mem_cons.mp plain
    obtain ⟨hitem, hitems⟩ := List.forall_mem_cons.mp items
    have hrest := ih distinct hkeys hitems
    rcases hitem with leaf | ⟨entries, hentries, inner⟩
    · exact .leaf hkey (fresh_toEntries fresh) leaf hrest
    · rw [Parameter.toEntries, hentries]
      exact .nested hkey (fresh_toEntries fresh) inner hrest

theorem normalEntries_toEntries {leaf : Value → Option Parameter} {b : Block}
    (h : ∀ e ∈ b, normalItem leaf e.2.toValue = some e.2) :
    normalEntries leaf (Parameter.toEntries b) = b := by
  induction b with
  | nil => rfl
  | cons e rest ih =>
    obtain ⟨hitem, hitems⟩ := List.forall_mem_cons.mp h
    rw [Parameter.toEntries, normalEntries_cons, hitem, ih hitems]
    rfl

theorem gathered_several {first : String} (present : first ≠ "") (second : String)
    (more : List String) :
    gathered (first :: second :: more) = .list ((first :: second :: more).map .text) := by
  simp [gathered, present]

/-- A settled parameter can be encoded and is its own normal form. -/
theorem settled_normal {p : Parameter} (h : p.Settled) :
    Storable p.toValue ∧ normalItem repeatedLeaf p.toValue = some p := by
  induction h with
  | text s => exact ⟨.inl (.inr rfl), rfl⟩
  | @list first present second more =>
    have texts : Parameter.toValue (.list ((first :: second :: more).map .text)) =
        .list ((first :: second :: more).map .text) :=
      congrArg Value.list (toValues_texts _)
    have leaf : IsLeaf (.list ((first :: second :: more).map .text)) := by
      intro v hv
      obtain ⟨s, -, rfl⟩ := List.mem_map.mp hv
      exact .inr rfl
    rw [texts]
    refine ⟨.inl leaf, ?_⟩
    rw [normalItem_leaf leaf, repeatedLeaf, elementTexts_texts, ← gathered_several present]
  | @block b nonempty distinct plain _ ih =>
    have inner := normalEntries_toEntries fun e he => (ih e he).2
    refine ⟨.inr ⟨_, rfl, encodable_toEntries distinct plain fun e he => (ih e he).1⟩, ?_⟩
    simp [Parameter.toValue, normalItem, inner, nonempty]

/-- What has the intended shape is settled if its lists hold several texts and its names are plain. -/
theorem settled_of_shaped {p : Parameter} (h : p.Shaped False)
    (lists : ∀ path items, p.at? path = some (.list items) → Several items)
    (plain : ∀ path, p.at? path ≠ none → ∀ name ∈ path, PlainKey name) : p.Settled := by
  induction h with
  | text s => exact .text s
  | list texts =>
    obtain ⟨first, second, more, htexts, present⟩ := lists [] _ rfl
    obtain ⟨s, texts, rfl, rfl, hmore⟩ := List.map_eq_cons_iff.mp htexts
    obtain ⟨t, texts, rfl, rfl, -⟩ := List.map_eq_cons_iff.mp hmore
    exact .list (fun e => present (congrArg Parameter.text e)) t texts
  | mixed allowed _ _ _ => exact absurd allowed id
  | @block b nonempty distinct _ ih =>
    have through {e : String × Parameter} (he : e ∈ b) (path : List String) :
        (Parameter.block b).at? (e.1 :: path) = e.2.at? path := by
      rw [Parameter.at?, Entries.item?_of_mem distinct he, Option.bind_some]
    refine .block nonempty distinct ?_ ?_
    · intro e he
      refine plain [e.1] ?_ e.1 (List.mem_singleton_self _)
      rw [through he]
      exact Option.some_ne_none _
    · intro e he
      refine ih e he ?_ ?_
      · intro path items hitems
        exact lists (e.1 :: path) items ((through he path).trans hitems)
      · intro path hsome name hname
        rw [← through he path] at hsome
        exact plain (e.1 :: path) hsome name (List.mem_cons_of_mem _ hname)

open Block (at?)

/-- A block that is settled unless it is empty is read as it was written. -/
theorem decode_encode_settled {delimiter : Delimiter} (off : delimiter.enabled? = none) {b : Block}
    (h : b = [] ∨ Parameter.Settled (.block b)) :
    ∃ text, encode b.toValue "" delimiter = .ok text ∧ decode text delimiter = b := by
  have normal : Encodable (Parameter.toEntries b) ∧
      normalEntries repeatedLeaf (Parameter.toEntries b) = b := by
    rcases h with rfl | h
    · exact ⟨.nil, rfl⟩
    · cases h with
      | block _ distinct plain items =>
        exact ⟨encodable_toEntries distinct plain fun e he => (settled_normal (items e he)).1,
          normalEntries_toEntries fun e he => (settled_normal (items e he)).2⟩
  obtain ⟨text, htext, hread⟩ := decode_encode_off off normal.1
  exact ⟨text, htext, hread.trans normal.2⟩

/-- What a query is read into is settled, or empty, exactly if no list holds a block and no name a
list marker. -/
theorem settled_decode_iff {delimiter : Delimiter} (off : delimiter.enabled? = none)
    (text : String) :
    (decode text delimiter = [] ∨ Parameter.Settled (.block (decode text delimiter))) ↔
      (∀ path items, at? path (decode text delimiter) = some (.list items) →
        ∀ inner, .block inner ∉ items) ∧
      ∀ path, at? path (decode text delimiter) ≠ none →
        ∀ name ∈ path, ∀ marker ∈ markers, ¬ marker <:+: name.toList := by
  have paths : ∀ q ∈ pairs text, q.path ≠ [] := fun q => path_ne_nil_of_mem_pairs
  constructor
  · rintro (empty | settled)
    · have nothing {path : List String} {p : Parameter}
          (found : at? path (decode text delimiter) = some p) : path = [] ∧ p = .block [] := by
        rw [empty] at found
        cases path with
        | nil => exact ⟨rfl, (Option.some.inj found).symm⟩
        | cons name path => cases found
      constructor
      · intro path items found
        cases (nothing found).2
      · intro path hsome name hname
        obtain ⟨p, found⟩ := Option.ne_none_iff_exists'.mp hsome
        rw [(nothing found).1] at hname
        cases hname
    · constructor
      · intro path items found
        exact (settled.at? found).1.block_not_mem
      · intro path hsome name hname
        obtain ⟨p, found⟩ := Option.ne_none_iff_exists'.mp hsome
        exact ((settled.at? found).2 name hname).unmarked
  · rintro ⟨unmixed, unmarked⟩
    have plain (path : List String) (hsome : at? path (decode text delimiter) ≠ none)
        (name : String) (hname : name ∈ path) : PlainKey name := by
      obtain ⟨p, hp⟩ := Option.ne_none_iff_exists'.mp hsome
      obtain ⟨q, hq, leads⟩ := exists_pair_of_at? paths (List.ne_nil_of_mem hname) hp
      obtain ⟨noPair, noValue, noPath⟩ := noMark_of_mem_path hq (leads.subset hname)
      exact ⟨noPair, noValue, noPath, unmarked path hsome name hname⟩
    have shaped : (decode text delimiter).Shaped False := by
      refine (shaped_iff (shaped_foldl paths (.inl rfl))).mpr ?_
      rintro path ⟨inner, items, mixed⟩
      exact unmixed path _ mixed inner List.mem_cons_self
    refine shaped.imp_right fun shaped => ?_
    exact settled_of_shaped shaped (fun path items => several_of_at? off paths) plain

/-- With lists switched off, what a query was read into is encoded and read back as it was, with all
keys in their order, if no list holds a block and no name a list marker. -/
theorem decode_encode_decoded {delimiter : Delimiter}
    (off : delimiter = none ∨ delimiter = some "") (text : String)
    (unmixed : ∀ path items, at? path (decode text delimiter) = some (.list items) →
      ∀ inner, .block inner ∉ items)
    (unmarked : ∀ path, at? path (decode text delimiter) ≠ none →
      ∀ name ∈ path, ∀ marker ∈ markers, ¬ marker <:+: name.toList) :
    ∃ again, encode (decode text delimiter).toValue "" delimiter = .ok again ∧
      decode again delimiter = decode text delimiter := by
  have off := off_of_none_or_empty off
  have settled := (settled_decode_iff off text).mpr ⟨unmixed, unmarked⟩
  exact decode_encode_settled off settled

/-- A key that occurs twice, a key without a first name and with a malformed escape in its value, and
a text that gives way to a block. -/
theorem decode_encode_decoded_of_repeated :
    let text := "a=x&a=&.b=%zz&c=1&c.d=2"
    let b : Block := [("a", .list [.text "x", .text ""]), ("", .block [("b", .text "%zz")]),
      ("c", .block [("d", .text "2")])]
    (decode text none = b ∧
      (∀ path items, at? path (decode text none) = some (.list items) →
        ∀ inner, .block inner ∉ items) ∧
      ∀ path, at? path (decode text none) ≠ none →
        ∀ name ∈ path, ∀ marker ∈ markers, ¬ marker <:+: name.toList) ∧
    ∃ again, encode (decode text none).toValue "" none = .ok again ∧
      decode again none = decode text none := by
  intro text b
  have row : pairs text = [⟨["a"], "x"⟩, ⟨["a"], ""⟩, ⟨["", "b"], "%zz"⟩, ⟨["c"], "1"⟩,
      ⟨["c", "d"], "2"⟩] := by decide +kernel
  have texts : Percent.decode "x" = "x" ∧ Percent.decode "" = "" ∧
      Percent.decode "%zz" = "%zz" ∧ Percent.decode "1" = "1" ∧ Percent.decode "2" = "2" := by
    decide +kernel
  have off (raw : String) : Delimiter.items? none raw = none := rfl
  have read : decode text none = b := by
    simp [decode, row, blockOf, addPair, absorb, off, texts, Block.update, Block.inner, item?,
      Entries.put, b]
  have plain : ∀ name ∈ ["a", "", "b", "c", "d"], PlainKey name := by decide
  simp only [List.forall_mem_cons] at plain
  obtain ⟨ha, he, hb, hc, hd, -⟩ := plain
  have single {name s : String} (plain : PlainKey name) :
      Parameter.Settled (.block [(name, .text s)]) :=
    .block (by simp) (by simp) (by simpa using plain) (by simpa using Parameter.Settled.text s)
  have settled : Parameter.Settled (.block b) := by
    refine .block (by simp [b]) (by decide) (by simpa [b] using ⟨ha, he, hc⟩) ?_
    have list : Parameter.Settled (.list [.text "x", .text ""]) :=
      .list (show "x" ≠ "" by decide) "" []
    simpa [b] using ⟨list, single hb, single hd⟩
  obtain ⟨unmixed, unmarked⟩ := (settled_decode_iff rfl text).mp (.inr (read ▸ settled))
  exact ⟨⟨read, unmixed, unmarked⟩, decode_encode_decoded (.inl rfl) text unmixed unmarked⟩

end Query

end FragmentRouting
