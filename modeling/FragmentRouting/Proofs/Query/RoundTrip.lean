import FragmentRouting.Proofs.Entries
import FragmentRouting.Proofs.Query.Flattening

/-!
# Reading an encoded mapping

The pairs of a mapping are replayed into a block that grows at its end, as every key is new to it:

* `foldl_below`: pairs under one name only change the block under that name;
* `foldl_entryPairs`: the pairs of a mapping append its normal form to a block without its keys;
* `decode_encode_mapping`: reading the query of a mapping gives its normal form.
-/

namespace FragmentRouting.Query

open Entries

variable {delimiter : Delimiter} {mark : Option Char}

/-! ## Pairs under one name -/

theorem addPair_below (key : String) {p : Pair} (h : p.path ≠ []) (b : Block) :
    addPair delimiter b (p.below [key]) =
      put key (.block (addPair delimiter (Block.inner key b) p)) b := by
  obtain ⟨path, raw⟩ := p
  obtain ⟨name, path, rfl⟩ := List.exists_cons_of_ne_nil h
  rfl

/-- Pairs under one name only change the block under that name. -/
theorem foldl_below (key : String) {row : List Pair} (h : ∀ p ∈ row, p.path ≠ [])
    (inner b : Block) :
    (row.map (Pair.below [key])).foldl (addPair delimiter) (put key (.block inner) b) =
      put key (.block (row.foldl (addPair delimiter) inner)) b := by
  induction row generalizing inner with
  | nil => rfl
  | cons p row ih =>
    obtain ⟨hp, hrow⟩ := List.forall_mem_cons.mp h
    have found : Block.inner key (put key (.block inner) b) = inner := by
      simp [Block.inner, item?_put_self]
    rw [List.map_cons, List.foldl_cons, addPair_below key hp, found, put_put, ih hrow]
    rfl

theorem addPair_ne_nil {p : Pair} (h : p.path ≠ []) (b : Block) : addPair delimiter b p ≠ [] := by
  obtain ⟨path, raw⟩ := p
  obtain ⟨name, path, rfl⟩ := List.exists_cons_of_ne_nil h
  cases path <;> exact put_ne_nil _ _ _

theorem foldl_ne_nil {row : List Pair} (h : ∀ p ∈ row, p.path ≠ []) {b : Block} (hb : b ≠ []) :
    row.foldl (addPair delimiter) b ≠ [] := by
  induction row generalizing b with
  | nil => exact hb
  | cons p row ih =>
    obtain ⟨hp, hrow⟩ := List.forall_mem_cons.mp h
    exact ih hrow (addPair_ne_nil hp b)

/-- Pairs under a new name become the block under that name, unless there are none. -/
theorem foldl_below_fresh {key : String} {row : List Pair} (h : ∀ p ∈ row, p.path ≠ [])
    {b : Block} (fresh : key ∉ b.map Prod.fst) :
    (row.map (Pair.below [key])).foldl (addPair delimiter) b =
      let inner := blockOf delimiter row
      put? key (if inner.isEmpty then none else some (.block inner)) b := by
  cases row with
  | nil => rfl
  | cons p row =>
    obtain ⟨hp, hrow⟩ := List.forall_mem_cons.mp h
    have nothing : Block.inner key b = [] := by
      simp [Block.inner, item?_fresh fresh]
    have something : blockOf delimiter (p :: row) ≠ [] := foldl_ne_nil hrow (addPair_ne_nil hp [])
    have whole : row.foldl (addPair delimiter) (addPair delimiter [] p) =
        blockOf delimiter (p :: row) := rfl
    rw [List.map_cons, List.foldl_cons, addPair_below key hp, nothing, foldl_below key hrow, whole]
    simp [something, put?]

/-! ## Pairs of a leaf -/

/-- What becomes of a leaf: its raw values, absorbed one after the other. -/
def readLeaf (delimiter : Delimiter) (v : Value) : Option Parameter :=
  (leafRaws delimiter v).foldl (fun current raw => some (absorb delimiter raw current)) none

theorem addPair_put? {key : String} {b : Block} (fresh : key ∉ b.map Prod.fst)
    (current : Option Parameter) (raw : String) :
    addPair delimiter (put? key current b) ⟨[key], raw⟩ =
      put? key (some (absorb delimiter raw current)) b := by
  cases current with
  | none => simp [addPair, Block.update, put?, item?_fresh fresh]
  | some p => simp [addPair, Block.update, put?, item?_put_self, put_put]

theorem foldl_raws {key : String} {b : Block} (fresh : key ∉ b.map Prod.fst)
    (current : Option Parameter) (raws : List String) :
    (raws.map (⟨[key], ·⟩)).foldl (addPair delimiter) (put? key current b) =
      put? key (raws.foldl (fun current raw => some (absorb delimiter raw current)) current) b := by
  induction raws generalizing current with
  | nil => rfl
  | cons raw raws ih => rw [List.map_cons, List.foldl_cons, addPair_put? fresh, ih]; rfl

/-! ## Pairs of a mapping -/

theorem path_ne_nil {entries : List (Value × Value)} {p : Pair}
    (h : p ∈ entryPairs delimiter entries) : p.path ≠ [] := by
  induction entries with
  | nil => cases h
  | cons entry rest ih =>
    rcases List.mem_append.mp h with hfirst | hrest
    · obtain ⟨within, -, rfl⟩ := List.mem_map.mp hfirst
      exact List.cons_ne_nil _ _
    · exact ih hrest

theorem normalEntries_cons (leaf : Value → Option Parameter) (key : String) (item : Value)
    (rest : List (Value × Value)) :
    normalEntries leaf ((.text key, item) :: rest) =
      (normalItem leaf item).toList.map (key, ·) ++ normalEntries leaf rest := by
  rw [normalEntries]
  cases normalItem leaf item <;> rfl

/-- A block without the keys of a mapping. -/
def Apart (entries : List (Value × Value)) (b : Block) : Prop :=
  ∀ key, Value.text key ∈ entries.map Prod.fst → key ∉ b.map Prod.fst

theorem Apart.append {key : String} {item : Value} {rest : List (Value × Value)} {b : Block}
    (h : Apart ((.text key, item) :: rest) b) (fresh : Value.text key ∉ rest.map Prod.fst)
    (p : Option Parameter) : Apart rest (b ++ p.toList.map (key, ·)) := by
  intro other hother found
  rw [List.map_append, List.mem_append] at found
  rcases found with hb | hkey
  · exact h other (List.mem_cons_of_mem _ hother) hb
  · obtain ⟨e, he, rfl⟩ := List.mem_map.mp hkey
    obtain ⟨q, -, rfl⟩ := List.mem_map.mp he
    exact fresh hother

/-- One item appends what is kept of it, and the other items follow. -/
theorem foldl_entryPairs_cons {key : String} {item : Value} {rest : List (Value × Value)}
    {b : Block} (apart : Apart ((.text key, item) :: rest) b)
    (fresh : Value.text key ∉ rest.map Prod.fst)
    (hitem : ((itemPairs delimiter item).map (Pair.below [key])).foldl (addPair delimiter) b =
      put? key (normalItem (readLeaf delimiter) item) b)
    (hrest : ∀ {b : Block}, Apart rest b → (entryPairs delimiter rest).foldl (addPair delimiter) b =
      b ++ normalEntries (readLeaf delimiter) rest) :
    (entryPairs delimiter ((.text key, item) :: rest)).foldl (addPair delimiter) b =
      b ++ normalEntries (readLeaf delimiter) ((.text key, item) :: rest) := by
  have new : key ∉ b.map Prod.fst := apart key List.mem_cons_self
  rw [entryPairs, Value.display, List.foldl_append, hitem, put?_fresh new,
    hrest (apart.append fresh _), normalEntries_cons, List.append_assoc]

/-- The pairs of a mapping append its normal form to a block that has none of its keys. -/
theorem foldl_entryPairs {entries : List (Value × Value)} (h : Encodable entries) {b : Block}
    (apart : Apart entries b) :
    (entryPairs delimiter entries).foldl (addPair delimiter) b =
      b ++ normalEntries (readLeaf delimiter) entries := by
  induction h generalizing b with
  | nil => simp [entryPairs, normalEntries]
  | @leaf key item rest _ fresh hitem _ ih =>
    have new : key ∉ b.map Prod.fst := apart key List.mem_cons_self
    refine foldl_entryPairs_cons apart fresh ?_ ih
    rw [itemPairs_leaf hitem, normalItem_leaf hitem, List.map_map]
    exact foldl_raws new none (leafRaws delimiter item)
  | @nested key inner rest _ fresh _ _ ih ih' =>
    have new : key ∉ b.map Prod.fst := apart key List.mem_cons_self
    have hinner : blockOf delimiter (entryPairs delimiter inner) =
        normalEntries (readLeaf delimiter) inner :=
      ih fun key _ => List.not_mem_nil
    refine foldl_entryPairs_cons apart fresh ?_ ih'
    rw [itemPairs, foldl_below_fresh (fun p hp => path_ne_nil hp) new, hinner]
    rfl

/-- The block of the pairs of a mapping is its normal form. -/
theorem blockOf_entryPairs {entries : List (Value × Value)} (h : Encodable entries) :
    blockOf delimiter (entryPairs delimiter entries) =
      normalEntries (readLeaf delimiter) entries :=
  foldl_entryPairs h fun _ _ => List.not_mem_nil

/-! ## Lists joined by a delimiter -/

theorem absorb_encode (hmark : delimiter.IsMark mark) (text : String) :
    absorb delimiter (delimiter.encode text) none = .text text := by
  simp [absorb, hmark.items?_encode, hmark.decode_encode]

theorem readLeaf_folded {c : Char} (hmark : delimiter.IsMark (some c)) {v : Value}
    (h : IsLeaf v) : readLeaf delimiter v = foldedLeaf v := by
  have listed (items : List Value) :
      (listRaws delimiter (elementTexts items)).foldl
        (fun current raw => some (absorb delimiter raw current)) none =
      foldedLeaf (.list items) := by
    simp only [foldedLeaf]
    cases elementTexts items with
    | nil => rfl
    | cons text rest =>
      have read := hmark.items?_marked (List.cons_ne_nil text rest)
      have enabled : delimiter.enabled? = some [c] := hmark.enabled
      simp only [listRaws, enabled, List.foldl_cons, List.foldl_nil, absorb, read, List.map_map,
        Function.comp_def, hmark.decode_encode]
  cases v with
  | null => rfl
  | list items | tuple items => exact listed items
  | bool _ | int _ | float _ | text _ | date _ | dateTime _ =>
    simp [readLeaf, leafRaws, foldedLeaf, absorb_encode hmark]
  | _ => simp [IsLeaf, IsElement, Value.isScalar] at h

/-- What is kept of a mapping only hangs on what is kept of its leaves. -/
theorem normalEntries_congr {leaf leaf' : Value → Option Parameter}
    {entries : List (Value × Value)} (h : Encodable entries)
    (same : ∀ v, IsLeaf v → leaf v = leaf' v) :
    normalEntries leaf entries = normalEntries leaf' entries := by
  induction h with
  | nil => rfl
  | leaf _ _ hitem _ ih =>
    rw [normalEntries_cons, normalEntries_cons, normalItem_leaf hitem, normalItem_leaf hitem,
      same _ hitem, ih]
  | nested _ _ _ _ ih ih' =>
    rw [normalEntries_cons, normalEntries_cons, normalItem, normalItem, ih, ih']

theorem normalEntries_folded {c : Char} (hmark : delimiter.IsMark (some c))
    {entries : List (Value × Value)} (h : Encodable entries) :
    normalEntries (readLeaf delimiter) entries = normalEntries foldedLeaf entries :=
  normalEntries_congr h fun _ hv => readLeaf_folded hmark hv

/-- A character that may be configured and is no digit of an escape can be told from all that is
escaped. -/
theorem isMark_of_accepted {c : Char}
    (accepted : Delimiter.fault? (some (String.singleton c)) = none)
    (noDigit : Percent.isEscapeDigit c = false) :
    Delimiter.IsMark (some (String.singleton c)) (some c) where
  enabled := by simp [Delimiter.enabled?]
  free := by
    intro d hd
    obtain rfl := Option.some.inj hd
    exact ⟨by simpa [Delimiter.fault?] using accepted, noDigit⟩

/-- An encodable mapping is encoded, and reading its query gives its normal form. -/
theorem decode_encode_folded {c : Char} (hmark : delimiter.IsMark (some c))
    {entries : List (Value × Value)} (h : Encodable entries) :
    ∃ text, encode (.map entries) "" delimiter = .ok text ∧
      decode text delimiter = normalEntries foldedLeaf entries := by
  obtain ⟨text, htext, hpairs⟩ := encode_pairs hmark h
  refine ⟨text, htext, ?_⟩
  rw [decode, hpairs, blockOf_entryPairs h, normalEntries_folded hmark h]

/-- Under a delimiter that may be configured and is no digit of an escape, every encodable mapping
is encoded, and reading its query gives its normal form with all keys in their order. A block with
nothing empty in it is read back as it was. -/
theorem decode_encode_mapping {c : Char}
    (accepted : Delimiter.fault? (some (String.singleton c)) = none)
    (noDigit : Percent.isEscapeDigit c = false) :
    (∀ entries, Encodable entries →
      ∃ text, encode (.map entries) "" (some (String.singleton c)) = .ok text ∧
        decode text (some (String.singleton c)) = normalEntries foldedLeaf entries) ∧
    (∀ b, Restorable b →
      ∃ text, encode b.toValue "" (some (String.singleton c)) = .ok text ∧
        decode text (some (String.singleton c)) = b) := by
  have hmark := isMark_of_accepted accepted noDigit
  constructor
  · intro entries h
    exact decode_encode_folded hmark h
  · intro b h
    obtain ⟨text, htext, hread⟩ := decode_encode_folded hmark h.encodable
    exact ⟨text, htext, hread.trans h.normalEntries_eq⟩

/-- Under the default delimiter, with a list, a list of nothing and a mapping inside. -/
theorem decode_encode_mapping_of_nested :
    let entries : List (Value × Value) :=
      [(.text "a", .list [.text "x|y", .null, .text ""]), (.text "b", .list [.null]),
        (.text "c", .map [(.text "d", .int 5), (.text "a", .bool true)])]
    let b : Block :=
      [("a", .list [.text "x|y"]), ("c", .block [("d", .text "5"), ("a", .text "true")])]
    let delimiter : Delimiter := some (String.singleton '|')
    (delimiter.fault? = none ∧ Percent.isEscapeDigit '|' = false ∧ Encodable entries ∧
      Restorable b) ∧
    (∃ text, encode (.map entries) "" delimiter = .ok text ∧ decode text delimiter = b) ∧
    ∃ text, encode b.toValue "" delimiter = .ok text ∧ decode text delimiter = b := by
  intro entries b delimiter
  have plain : ∀ key ∈ ["a", "b", "c", "d"], PlainKey key := by decide
  simp only [List.forall_mem_cons] at plain
  obtain ⟨ha, hb, hc, hd, -⟩ := plain
  have encodable : Encodable entries := by
    refine .leaf ha (by simp) ?_ (.leaf hb (by simp) ?_ (.nested hc (by simp) ?_ .nil))
    · simp [IsLeaf, IsElement, Value.isScalar]
    · simp [IsLeaf, IsElement]
    · exact .leaf hd (by simp) (.inr rfl) (.leaf ha (by simp) (.inr rfl) .nil)
  have restorable : Restorable b :=
    @Restorable.list _ ["x|y"] _ ha (by simp) (by simp) (by simp)
      (.block hc (by simp) (by simp) (.text hd (by simp) (.text ha (by simp) .nil)) .nil)
  have main := decode_encode_mapping (c := '|') (by decide) (by decide)
  exact ⟨⟨by decide, by decide, encodable, restorable⟩, main.1 _ encodable, main.2 _ restorable⟩

end FragmentRouting.Query
