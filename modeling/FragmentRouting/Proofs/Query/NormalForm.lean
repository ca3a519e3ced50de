import Mathlib.Data.List.Infix
import FragmentRouting.Query.Parameter
import FragmentRouting.Query.Segment

/-!
# The normal form of a mapping

What a query keeps of a mapping. Texts stand for scalars, and whatever is null or empty is gone:

* `Encodable entries`: the mappings that a query can hold, nested to any depth;
* `normalEntries leaf entries`: the block of a mapping, where `leaf` says what becomes of an item
  that is no mapping itself;
* `foldedLeaf`: what becomes of it when a delimiter joins lists.
-/

namespace FragmentRouting.Query

/-- The spellings of the list marker. -/
def markers : List (List Char) :=
  ["[]", "%5B%5D", "%5B%5d", "%5b%5D", "%5b%5d"].map String.toList

/-- A key that no part of which a query reads as anything else. -/
structure PlainKey (key : String) : Prop where
  noPair : '&' ∉ key.toList
  noValue : '=' ∉ key.toList
  noPath : '.' ∉ key.toList
  unmarked : ∀ marker ∈ markers, ¬ marker <:+: key.toList

instance (key : String) : Decidable (PlainKey key) :=
  decidable_of_iff ('&' ∉ key.toList ∧ '=' ∉ key.toList ∧ '.' ∉ key.toList ∧
      ∀ marker ∈ markers, ¬ marker <:+: key.toList)
    ⟨fun ⟨noPair, noValue, noPath, unmarked⟩ => ⟨noPair, noValue, noPath, unmarked⟩,
      fun h => ⟨h.noPair, h.noValue, h.noPath, h.unmarked⟩⟩

/-- A scalar, or nothing in its place. -/
def IsElement (v : Value) : Prop :=
  v = .null ∨ v.isScalar = true

/-- An item that is no mapping: an element, or a list of elements. -/
def IsLeaf : Value → Prop
  | .list items | .tuple items => ∀ v ∈ items, IsElement v
  | v => IsElement v

/-- A mapping with plain and distinct keys whose items are leaves or again such mappings. -/
inductive Encodable : List (Value × Value) → Prop
  | nil : Encodable []
  | leaf {key : String} {item : Value} {rest : List (Value × Value)} (plain : PlainKey key)
      (fresh : Value.text key ∉ rest.map Prod.fst) (hitem : IsLeaf item) (h : Encodable rest) :
      Encodable ((.text key, item) :: rest)
  | nested {key : String} {inner rest : List (Value × Value)} (plain : PlainKey key)
      (fresh : Value.text key ∉ rest.map Prod.fst) (hinner : Encodable inner)
      (h : Encodable rest) : Encodable ((.text key, .map inner) :: rest)

mutual

/-- The keys inside a value, at every depth. -/
def keysWithin : Value → List String
  | .map entries => entryKeys entries
  | _ => []

/-- The keys of a mapping, at every depth. -/
def entryKeys : List (Value × Value) → List String
  | [] => []
  | (key, item) :: rest => key.display :: keysWithin item ++ entryKeys rest

end

/-- The texts of the elements of a list. Null has none. -/
def elementTexts (items : List Value) : List String :=
  items.filterMap fun v => match v with
    | .null => none
    | v => some v.queryText

/-- What a query with a list delimiter keeps of a leaf. A list loses its empty texts, and one
without any text is not there at all. -/
def foldedLeaf : Value → Option Parameter
  | .null => none
  | .list items | .tuple items =>
    match elementTexts items with
    | [] => none
    | texts => some (.list ((texts.filter (!·.isEmpty)).map .text))
  | v => some (.text v.queryText)

mutual

/-- What a query keeps of an item, if anything. -/
def normalItem (leaf : Value → Option Parameter) : Value → Option Parameter
  | .map entries =>
    let b := normalEntries leaf entries
    if b.isEmpty then none else some (.block b)
  | v => leaf v

/-- What a query keeps of the entries of a mapping, in their order. -/
def normalEntries (leaf : Value → Option Parameter) : List (Value × Value) → Block
  | [] => []
  | (key, item) :: rest =>
    match normalItem leaf item with
    | none => normalEntries leaf rest
    | some p => (key.display, p) :: normalEntries leaf rest

end

theorem normalItem_leaf {leaf : Value → Option Parameter} {v : Value} (h : IsLeaf v) :
    normalItem leaf v = leaf v := by
  cases v with
  | map entries => simp [IsLeaf, IsElement, Value.isScalar] at h
  | _ => rfl

/-! ## Blocks that are their own normal form -/

/-- A block whose leaves are texts and lists of texts, with nothing empty in them. Only a text by
itself may be empty. -/
inductive Restorable : Block → Prop
  | nil : Restorable []
  | text {key s : String} {rest : Block} (plain : PlainKey key)
      (fresh : key ∉ rest.map Prod.fst) (h : Restorable rest) :
      Restorable ((key, .text s) :: rest)
  | list {key : String} {texts : List String} {rest : Block} (plain : PlainKey key)
      (fresh : key ∉ rest.map Prod.fst) (nonempty : texts ≠ [])
      (present : ∀ s ∈ texts, s ≠ "") (h : Restorable rest) :
      Restorable ((key, .list (texts.map .text)) :: rest)
  | block {key : String} {inner rest : Block} (plain : PlainKey key)
      (fresh : key ∉ rest.map Prod.fst) (nonempty : inner ≠ []) (hinner : Restorable inner)
      (h : Restorable rest) : Restorable ((key, .block inner) :: rest)

theorem keys_toEntries (b : Block) :
    (Parameter.toEntries b).map Prod.fst = (b.map Prod.fst).map Value.text := by
  induction b with
  | nil => rfl
  | cons e rest ih => simp [Parameter.toEntries, ih]

theorem fresh_toEntries {key : String} {b : Block} (h : key ∉ b.map Prod.fst) :
    Value.text key ∉ (Parameter.toEntries b).map Prod.fst := by
  rw [keys_toEntries, List.mem_map]
  rintro ⟨other, hother, e⟩
  cases e
  exact h hother

theorem toValues_texts (texts : List String) :
    Parameter.toValues (texts.map .text) = texts.map Value.text := by
  induction texts with
  | nil => rfl
  | cons s rest ih => simp [Parameter.toValues, Parameter.toValue, ih]

theorem elementTexts_texts (texts : List String) :
    elementTexts (texts.map Value.text) = texts := by
  induction texts with
  | nil => rfl
  | cons s rest ih => exact congrArg (s :: ·) ih

theorem Restorable.encodable {b : Block} (h : Restorable b) :
    Encodable (Parameter.toEntries b) := by
  induction h with
  | nil => exact .nil
  | text plain fresh _ ih => exact .leaf plain (fresh_toEntries fresh) (.inr rfl) ih
  | @list key texts rest plain fresh _ _ _ ih =>
    refine .leaf plain (fresh_toEntries fresh) ?_ ih
    rw [Parameter.toValue, toValues_texts]
    intro v hv
    obtain ⟨s, -, rfl⟩ := List.mem_map.mp hv
    exact .inr rfl
  | block plain fresh _ _ _ ih ih' => exact .nested plain (fresh_toEntries fresh) ih ih'

theorem Restorable.normalEntries_eq {b : Block} (h : Restorable b) :
    normalEntries foldedLeaf (Parameter.toEntries b) = b := by
  induction h with
  | nil => rfl
  | text _ _ _ ih =>
    simp [Parameter.toEntries, Parameter.toValue, normalEntries, normalItem, foldedLeaf,
      Value.display, Value.queryText, ih]
  | @list key texts rest _ _ nonempty present _ ih =>
    have kept : texts.filter (!·.isEmpty) = texts := by
      rw [List.filter_eq_self]
      intro s hs
      simpa using present s hs
    obtain ⟨s, more, rfl⟩ := List.exists_cons_of_ne_nil nonempty
    simp only [Parameter.toEntries, Parameter.toValue, toValues_texts, normalEntries, normalItem,
      foldedLeaf, elementTexts_texts, kept, ih, Value.display]
  | block _ _ nonempty _ _ ih ih' =>
    simp [Parameter.toEntries, Parameter.toValue, normalEntries, normalItem, Value.display, ih,
      ih', nonempty]

end FragmentRouting.Query
