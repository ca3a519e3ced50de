import FragmentRouting.Proofs.Query.RoundTrip

/-!
# Repeated keys

Without a delimiter a list is written as one pair for each of its texts, all under the same key, and
reading the query gathers the texts again:

* `gathered`: what the texts under one key become;
* `absorb_gathered`: what one more text makes of it, and so `foldl_absorb` a whole row of them;
* `repeatedLeaf`: what a query without a list delimiter keeps of a leaf;
* `decode_encode_repeated`: reading the query of a mapping gives its normal form.
-/

namespace FragmentRouting.Query

variable {delimiter : Delimiter}

/-- What the texts under one key become. Empty texts in front are lost, and the others are a list
if there are several. -/
def gathered (texts : List String) : Parameter :=
  match texts.dropWhile String.isEmpty with
  | [] => .text ""
  | [s] => .text s
  | several => .list (several.map .text)

theorem gathered_singleton (s : String) : gathered [s] = .text s := by
  by_cases empty : s = ""
  · subst empty
    rfl
  · simp [gathered, empty]

/-- One more text is gathered behind the others. -/
theorem absorb_gathered {raw : String} (single : delimiter.items? raw = none)
    (texts : List String) :
    absorb delimiter raw (some (gathered texts)) = gathered (texts ++ [Percent.decode raw]) := by
  have more : (texts ++ [Percent.decode raw]).dropWhile String.isEmpty =
      if (texts.dropWhile String.isEmpty).isEmpty then [Percent.decode raw].dropWhile String.isEmpty
      else texts.dropWhile String.isEmpty ++ [Percent.decode raw] := List.dropWhile_append
  have first := List.head?_dropWhile_not String.isEmpty texts
  unfold absorb
  rw [single]
  rcases left : texts.dropWhile String.isEmpty with _ | ⟨s, _ | ⟨t, rest⟩⟩
  · have alone : gathered (texts ++ [Percent.decode raw]) = gathered [Percent.decode raw] := by
      simp only [gathered, more, left, List.isEmpty_nil, if_true]
    rw [alone, gathered_singleton]
    simp [gathered, left]
  · have present : s.isEmpty = false := by simpa [left] using first
    simp [gathered, more, left, present]
  · simp [gathered, more, left]

/-- A row of texts is gathered behind the others. -/
theorem foldl_absorb {raws : List String} (single : ∀ raw ∈ raws, delimiter.items? raw = none)
    (texts : List String) :
    raws.foldl (fun current raw => some (absorb delimiter raw current)) (some (gathered texts)) =
      some (gathered (texts ++ raws.map Percent.decode)) := by
  induction raws generalizing texts with
  | nil => simp
  | cons raw raws ih =>
    obtain ⟨hraw, hraws⟩ := List.forall_mem_cons.mp single
    rw [List.foldl_cons, absorb_gathered hraw, ih hraws]
    simp

/-- Where nothing was before, a row of texts is gathered. -/
theorem foldl_absorb_none {raws : List String}
    (single : ∀ raw ∈ raws, delimiter.items? raw = none) (nonempty : raws ≠ []) :
    raws.foldl (fun current raw => some (absorb delimiter raw current)) none =
      some (gathered (raws.map Percent.decode)) := by
  obtain ⟨raw, raws, rfl⟩ := List.exists_cons_of_ne_nil nonempty
  obtain ⟨hraw, hraws⟩ := List.forall_mem_cons.mp single
  have first : absorb delimiter raw none = gathered [Percent.decode raw] := by
    rw [gathered_singleton, absorb, hraw]
  rw [List.foldl_cons, first, foldl_absorb hraws]
  rfl

/-! ## Lists without a delimiter -/

/-- What a query without a list delimiter keeps of a leaf. -/
def repeatedLeaf : Value → Option Parameter
  | .null => none
  | .list items | .tuple items =>
    match elementTexts items with
    | [] => none
    | texts => some (gathered texts)
  | v => some (.text v.queryText)

theorem off_of_none_or_empty (off : delimiter = none ∨ delimiter = some "") :
    delimiter.enabled? = none := by
  rcases off with rfl | rfl <;> rfl

theorem isMark_of_off (off : delimiter.enabled? = none) : delimiter.IsMark none where
  enabled := off
  free := by
    intro c hc
    cases hc

theorem items?_of_off (off : delimiter.enabled? = none) (raw : String) :
    delimiter.items? raw = none := by
  rw [Delimiter.items?, off]

theorem readLeaf_repeated (off : delimiter.enabled? = none) {v : Value} (h : IsLeaf v) :
    readLeaf delimiter v = repeatedLeaf v := by
  have hmark := isMark_of_off off
  have listed (items : List Value) :
      (listRaws delimiter (elementTexts items)).foldl
        (fun current raw => some (absorb delimiter raw current)) none =
      repeatedLeaf (.list items) := by
    simp only [repeatedLeaf]
    cases htexts : elementTexts items with
    | nil => rfl
    | cons text rest =>
      have raws : listRaws delimiter (text :: rest) = (text :: rest).map delimiter.encode := by
        simp only [listRaws, off]
      have read : ((text :: rest).map delimiter.encode).map Percent.decode = text :: rest := by
        simp [Function.comp_def, hmark.decode_encode]
      rw [raws, foldl_absorb_none (fun raw _ => items?_of_off off raw) (by simp), read]
  cases v with
  | null => rfl
  | list items | tuple items => exact listed items
  | bool _ | int _ | float _ | text _ | date _ | dateTime _ =>
    simp [readLeaf, leafRaws, repeatedLeaf, absorb_encode hmark]
  | _ => simp [IsLeaf, IsElement, Value.isScalar] at h

/-- An encodable mapping is encoded, and reading its query gives its normal form. -/
theorem decode_encode_off (off : delimiter.enabled? = none) {entries : List (Value × Value)}
    (h : Encodable entries) :
    ∃ text, encode (.map entries) "" delimiter = .ok text ∧
      decode text delimiter = normalEntries repeatedLeaf entries := by
  obtain ⟨text, htext, hpairs⟩ := encode_pairs (isMark_of_off off) h
  refine ⟨text, htext, ?_⟩
  rw [decode, hpairs, blockOf_entryPairs h]
  exact normalEntries_congr h fun v hv => readLeaf_repeated off hv

/-- With lists switched off, every encodable mapping is encoded, and reading its query gives its
normal form with all keys in their order. -/
theorem decode_encode_repeated (off : delimiter = none ∨ delimiter = some "")
    {entries : List (Value × Value)} (h : Encodable entries) :
    ∃ text, encode (.map entries) "" delimiter = .ok text ∧
      decode text delimiter = normalEntries repeatedLeaf entries :=
  decode_encode_off (off_of_none_or_empty off) h

/-- Under both ways to switch lists off, with empty texts in front of, between and behind others. -/
theorem decode_encode_repeated_of_nested :
    let entries : List (Value × Value) :=
      [(.text "a", .list [.text "", .text "x", .null, .text "", .int 5, .text ""]),
        (.text "b", .tuple [.text "", .text ""]), (.text "c", .list [.null]),
        (.text "d", .map [(.text "a", .list [.text "", .bool true]), (.text "", .map [])])]
    let b : Block :=
      [("a", .list [.text "x", .text "", .text "5", .text ""]), ("b", .text ""),
        ("d", .block [("a", .text "true")])]
    Encodable entries ∧
      (∃ text, encode (.map entries) "" none = .ok text ∧ decode text none = b) ∧
      ∃ text, encode (.map entries) "" (some "") = .ok text ∧ decode text (some "") = b := by
  intro entries b
  have plain : ∀ key ∈ ["", "a", "b", "c", "d"], PlainKey key := by decide
  simp only [List.forall_mem_cons] at plain
  obtain ⟨he, ha, hb, hc, hd, -⟩ := plain
  have inner : Encodable [(.text "a", .list [.text "", .bool true]), (.text "", .map [])] := by
    refine .leaf ha (by simp) ?_ (.nested he (by simp) .nil .nil)
    simp [IsLeaf, IsElement, Value.isScalar]
  have encodable : Encodable entries := by
    refine .leaf ha (by simp) ?_ (.leaf hb (by simp) ?_ (.leaf hc (by simp) ?_
      (.nested hd (by simp) inner .nil)))
    · simp [IsLeaf, IsElement, Value.isScalar]
    · simp [IsLeaf, IsElement, Value.isScalar]
    · simp [IsLeaf, IsElement]
  exact ⟨encodable, decode_encode_repeated (.inl rfl) encodable,
    decode_encode_repeated (.inr rfl) encodable⟩

end FragmentRouting.Query
