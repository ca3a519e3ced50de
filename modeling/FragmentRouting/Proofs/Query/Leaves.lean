import FragmentRouting.Proofs.Query.Flattening

/-!
# The leaves of a mapping

A query written from the row of all items of a mapping that are no mappings themselves, each with
the keys above it. This is what the encoder writes, mapping by mapping:

* `leavesOf`: the row, depth first and in the order of the entries;
* `rowSegments`: the segments of a row, or the failure of its first leaf that does not fit;
* `SameText`: segments that join to the same text, also behind and inside others;
* `entrySegments_rowSegments`: mapping by mapping, the text is that of the row;
* `Leaf.BringsStray`: where an ampersand can come from that does not part two segments;
* `encode_leaves`: what is written for any value at all.
-/

namespace FragmentRouting.Query

/-- An item of a mapping with the keys above it, from the outermost. -/
structure Leaf where
  path : List String
  item : Value

namespace Leaf

/-- The leaf with one more key above it. -/
def below (key : String) (leaf : Leaf) : Leaf :=
  ⟨key :: leaf.path, leaf.item⟩

/-- The name under which a leaf is written. -/
def name (stem : String) (leaf : Leaf) : String :=
  stem ++ ".".intercalate leaf.path

/-- The segments of a leaf, one for each of its raw values. -/
def segments (delimiter : Delimiter) (stem : String) (leaf : Leaf) : List String :=
  (leafRaws delimiter leaf.item).map (leaf.name stem ++ "=" ++ ·)

end Leaf

mutual

/-- The leaves of an item, with paths that begin below its key. -/
def leavesWithin : Value → List Leaf
  | .map entries => leavesOf entries
  | v => [⟨[], v⟩]

/-- The leaves of a mapping, depth first. -/
def leavesOf : List (Value × Value) → List Leaf
  | [] => []
  | (key, item) :: rest => (leavesWithin item).map (Leaf.below key.display) ++ leavesOf rest

end

/-- The segments of a row of leaves. The first leaf that does not fit is reported, and then nothing
is written. -/
def rowSegments (delimiter : Delimiter) (stem : String) (leaves : List Leaf) :
    Except Failure (List String) :=
  match leaves.find? (!·.item.fitsQuery) with
  | some leaf => .error (.notEncodable leaf.item.kindName (leaf.name stem))
  | none => .ok (leaves.flatMap (Leaf.segments delimiter stem))

/-! ## Segments with the same text -/

theorem joined_append {first second : List String} (hfirst : first ≠ []) (hsecond : second ≠ []) :
    joined (first ++ second) = joined first ++ "&" ++ joined second :=
  String.intercalate_append_of_ne_nil hfirst hsecond

theorem joined_eq_empty_iff {segments : List String} (h : ∀ segment ∈ segments, segment ≠ "") :
    joined segments = "" ↔ segments = [] := by
  constructor
  · intro empty
    cases segments with
    | nil => rfl
    | cons segment rest =>
      cases rest with
      | nil => exact absurd empty (by simpa [joined] using h)
      | cons next rest => simp [joined] at empty
  · rintro rfl
    rfl

/-- Both fail alike, or both have segments that join to one text. -/
inductive SameText : Except Failure (List String) → Except Failure (List String) → Prop
  | error (failure : Failure) : SameText (.error failure) (.error failure)
  | ok {first second : List String} (joined_eq : joined first = joined second)
      (nil_iff : first = [] ↔ second = []) : SameText (.ok first) (.ok second)

namespace SameText

variable {first first' second second' : Except Failure (List String)}

theorem refl (row : Except Failure (List String)) : SameText row row := by
  cases row with
  | error failure => exact .error failure
  | ok segments => exact .ok rfl Iff.rfl

theorem map_joined (h : SameText first first') : first.map joined = first'.map joined := by
  cases h with
  | error => rfl
  | ok joined_eq => exact congrArg Except.ok joined_eq

/-- What is written one after the other has the same text if each part has. -/
theorem append (h : SameText first first') (h' : SameText second second') :
    SameText (do return (← first) ++ (← second)) (do return (← first') ++ (← second')) := by
  cases h with
  | error failure => exact .error failure
  | @ok a a' joined_eq nil_iff =>
    cases h' with
    | error failure => exact .error failure
    | @ok b b' joined_eq' nil_iff' =>
      refine .ok ?_ (by simp [nil_iff, nil_iff'])
      by_cases ha : a = []
      · rw [ha, nil_iff.mp ha]
        exact joined_eq'
      · by_cases hb : b = []
        · rw [hb, nil_iff'.mp hb, List.append_nil, List.append_nil]
          exact joined_eq
        · rw [joined_append ha hb, joined_append (mt nil_iff.mpr ha) (mt nil_iff'.mpr hb),
            joined_eq, joined_eq']

/-- A mapping inside another writes its text as one segment, or as none if it is empty. -/
theorem nested (h : SameText first first')
    (nonempty : ∀ segments, first' = .ok segments → ∀ segment ∈ segments, segment ≠ "") :
    SameText (do
      let text := joined (← first)
      return if text.isEmpty then [] else [text]) first' := by
  cases h with
  | error failure => exact .error failure
  | @ok a a' joined_eq nil_iff =>
    have empty_iff : joined a = "" ↔ a' = [] := by
      rw [joined_eq, joined_eq_empty_iff (nonempty a' rfl)]
    by_cases empty : joined a = ""
    · obtain rfl := empty_iff.mp empty
      simpa [empty, bind, Except.bind, pure, Except.pure] using refl _
    · have present : a' ≠ [] := mt empty_iff.mpr empty
      simp only [bind, Except.bind, pure, Except.pure, String.isEmpty_iff, empty, if_false]
      exact .ok (by simpa [joined] using joined_eq) (by simpa using present)

end SameText

variable {delimiter : Delimiter} {stem key : String}

/-! ## The segments of a row -/

theorem rowSegments_append (first second : List Leaf) :
    rowSegments delimiter stem (first ++ second) = do
      return (← rowSegments delimiter stem first) ++ (← rowSegments delimiter stem second) := by
  unfold rowSegments
  rw [List.find?_append]
  cases first.find? (!·.item.fitsQuery) with
  | some leaf => rfl
  | none =>
    cases second.find? (!·.item.fitsQuery) with
    | some leaf => rfl
    | none => simp [bind, Except.bind, pure, Except.pure]

theorem Leaf.name_below {leaf : Leaf} (h : leaf.path ≠ []) :
    (leaf.below key).name stem = leaf.name (stem ++ key ++ ".") := by
  rw [name, below, String.intercalate_cons_of_ne_nil h, name]
  simp only [String.append_assoc]

/-- A key above all leaves prolongs the stem. -/
theorem rowSegments_below {leaves : List Leaf} (h : ∀ leaf ∈ leaves, leaf.path ≠ []) :
    rowSegments delimiter stem (leaves.map (Leaf.below key)) =
      rowSegments delimiter (stem ++ key ++ ".") leaves := by
  have segments : (leaves.map (Leaf.below key)).flatMap (Leaf.segments delimiter stem) =
      leaves.flatMap (Leaf.segments delimiter (stem ++ key ++ ".")) := by
    rw [List.flatMap_map]
    apply List.flatMap_congr
    intro leaf hleaf
    simp only [Leaf.segments, Leaf.name_below (h leaf hleaf)]
    rfl
  have unfit : (leaves.map (Leaf.below key)).find? (!·.item.fitsQuery) =
      (leaves.find? (!·.item.fitsQuery)).map (Leaf.below key) := List.find?_map
  simp only [rowSegments, unfit, segments]
  cases found : leaves.find? (!·.item.fitsQuery) with
  | none => rfl
  | some leaf =>
    simp only [Option.map_some, Leaf.name_below (h leaf (List.mem_of_find?_eq_some found))]
    rfl

/-- A segment has an equals sign, so it is not empty. -/
theorem ne_empty_of_rowSegments {leaves : List Leaf} {segments : List String}
    (h : rowSegments delimiter stem leaves = .ok segments) :
    ∀ segment ∈ segments, segment ≠ "" := by
  unfold rowSegments at h
  split at h
  · cases h
  · cases h
    intro segment hsegment
    obtain ⟨leaf, -, hleaf⟩ := List.mem_flatMap.mp hsegment
    obtain ⟨raw, -, rfl⟩ := List.mem_map.mp hleaf
    simp

/-! ## A mapping and its leaves -/

theorem Leaf.path_ne_nil {entries : List (Value × Value)} {leaf : Leaf}
    (h : leaf ∈ leavesOf entries) : leaf.path ≠ [] := by
  induction entries with
  | nil => cases h
  | cons entry rest ih =>
    obtain ⟨key, item⟩ := entry
    rw [leavesOf, List.mem_append, List.mem_map] at h
    rcases h with ⟨inner, -, rfl⟩ | h
    · exact List.cons_ne_nil _ _
    · exact ih h

theorem leavesWithin_plain {v : Value} (h : ∀ entries, v ≠ .map entries) :
    leavesWithin v = [⟨[], v⟩] := by
  cases v with
  | map entries => exact absurd rfl (h entries)
  | _ => rfl

theorem rowSegments_plain {v : Value} (h : ∀ entries, v ≠ .map entries) :
    rowSegments delimiter stem ((leavesWithin v).map (Leaf.below key)) =
      itemSegments delimiter (stem ++ key) v := by
  rw [leavesWithin_plain h, itemSegments_plain _ h]
  cases fits : v.fitsQuery <;> simp [rowSegments, Leaf.below, Leaf.segments, Leaf.name, fits]

-- The induction is on the value, and the stem grows with each mapping that is entered.

mutual

theorem itemSegments_rowSegments (stem key : String) (v : Value) :
    SameText (itemSegments delimiter (stem ++ key) v)
      (rowSegments delimiter stem ((leavesWithin v).map (Leaf.below key))) := by
  cases v with
  | map entries =>
    rw [leavesWithin, rowSegments_below fun leaf => Leaf.path_ne_nil, itemSegments]
    exact (entrySegments_rowSegments (stem ++ key ++ ".") entries).nested
      fun _ => ne_empty_of_rowSegments
  | _ =>
    rw [rowSegments_plain (by simp)]
    exact .refl _

/-- Mapping by mapping, the text is that of the row of leaves. -/
theorem entrySegments_rowSegments (stem : String) (entries : List (Value × Value)) :
    SameText (entrySegments delimiter stem entries)
      (rowSegments delimiter stem (leavesOf entries)) := by
  match entries with
  | [] => exact .refl _
  | (key, item) :: rest =>
    rw [leavesOf, rowSegments_append, entrySegments]
    exact (itemSegments_rowSegments stem key.display item).append
      (entrySegments_rowSegments stem rest)

end

/-! ## Ampersands -/

/-- A leading, a trailing or a doubled ampersand. -/
def Stray (text : List Char) : Prop :=
  text.head? = some '&' ∨ text.getLast? = some '&' ∨ ['&', '&'] <:+: text

instance (text : List Char) : Decidable (Stray text) :=
  inferInstanceAs (Decidable (_ ∨ _ ∨ _))

/-- Behind the name of a segment stands an equals sign, so an ampersand at the end of the name does
not stray. -/
theorem of_stray_segment {name raw : List Char} (noPair : '&' ∉ raw)
    (stray : Stray (name ++ '=' :: raw)) : name.head? = some '&' ∨ ['&', '&'] <:+: name := by
  rcases stray with found | found | found
  · cases name with
    | nil => simp at found
    | cons c name => exact .inl found
  · rw [List.getLast?_append_cons] at found
    rcases List.mem_cons.mp (List.mem_of_getLast? found) with found | found
    · simp at found
    · exact absurd found noPair
  · rcases infix_of_append_cons (by decide) found with inName | inRaw
    · exact .inr inName
    · exact absurd (inRaw.subset List.mem_cons_self) noPair

/-- Two ampersands in a row stand in one of two texts, or where the texts meet. -/
theorem doubled_append {first second : List Char} (h : ['&', '&'] <:+: first ++ second) :
    ['&', '&'] <:+: first ∨ ['&', '&'] <:+: second ∨
      first.getLast? = some '&' ∧ second.head? = some '&' := by
  rw [List.infix_append_iff_ne_nil] at h
  rcases h with inFirst | inSecond | ⟨before, after, hbefore, hafter, cut, hend, hfront⟩
  · exact .inl inFirst
  · exact .inr (.inl inSecond)
  · match before, hbefore with
    | [c], _ =>
      obtain ⟨rfl, rfl⟩ := List.cons.inj cut
      exact .inr (.inr ⟨List.singleton_suffix_iff_getLast?_eq_some.mp hend,
        List.singleton_prefix_iff_head?_eq_some.mp hfront⟩)
    | _ :: _ :: _, _ => exact absurd cut (by simp [hafter])

theorem not_stray_append {first second : List Char} (hfirst : first ≠ []) (hsecond : second ≠ [])
    (plain : ¬ Stray first) (plain' : ¬ Stray second) : ¬ Stray (first ++ '&' :: second) := by
  simp only [Stray, not_or] at plain plain'
  rintro (found | found | found)
  · rw [List.head?_append_of_ne_nil _ hfirst] at found
    exact plain.1 found
  · rw [List.append_cons, List.getLast?_append_of_ne_nil _ hsecond] at found
    exact plain'.2.1 found
  · rcases doubled_append found with found | found | ⟨found, -⟩
    · exact plain.2.2 found
    · rw [List.infix_cons_iff, List.cons_prefix_cons,
        List.singleton_prefix_iff_head?_eq_some] at found
      rcases found with ⟨-, found⟩ | found
      · exact plain'.1 found
      · exact plain'.2.2 found
    · exact plain.2.1 found

/-- Joining segments in which no ampersand strays lets none stray. -/
theorem not_stray_joined {segments : List String} (nonempty : ∀ segment ∈ segments, segment ≠ "")
    (plain : ∀ segment ∈ segments, ¬ Stray segment.toList) : ¬ Stray (joined segments).toList := by
  induction segments with
  | nil => decide
  | cons segment rest ih =>
    obtain ⟨hsegment, hrest⟩ := List.forall_mem_cons.mp plain
    obtain ⟨present, presents⟩ := List.forall_mem_cons.mp nonempty
    by_cases last : rest = []
    · simpa [last, joined] using hsegment
    · have cut := joined_append (List.cons_ne_nil segment []) last
      have chars : (joined (segment :: rest)).toList =
          segment.toList ++ '&' :: (joined rest).toList := by
        rw [← List.singleton_append, cut]
        simp [joined]
      have behind : joined rest ≠ "" := mt (joined_eq_empty_iff presents).mp last
      rw [chars]
      exact not_stray_append (by simpa using present) (by simpa using behind) hsegment
        (ih presents hrest)

/-- What brings an ampersand that strays in the segment of a leaf: the text before all names, a key,
or the delimiter in front of the elements of a list. Between two keys stands a dot, so no two keys
bring it together. -/
inductive Leaf.BringsStray (delimiter : Delimiter) (stem : String) (leaf : Leaf) : Prop
  | stem (h : stem.toList.head? = some '&' ∨ ['&', '&'] <:+: stem.toList)
  | first {key : String} (hkey : leaf.path.head? = some key) (lead : key.toList.head? = some '&')
      (behind : stem = "" ∨ stem.toList.getLast? = some '&')
  | key {key : String} (hkey : key ∈ leaf.path) (doubled : ['&', '&'] <:+: key.toList)
  | delimiter {items : List Value} (list : leaf.item = .list items ∨ leaf.item = .tuple items)
      {separator : List Char} (enabled : delimiter.enabled? = some separator)
      (h : '&' ∈ separator)

theorem exists_first_of_lead {path : List String}
    (h : (".".intercalate path).toList.head? = some '&') :
    ∃ key, path.head? = some key ∧ key.toList.head? = some '&' := by
  cases path with
  | nil => simp at h
  | cons key rest =>
    refine ⟨key, rfl, ?_⟩
    by_cases last : rest = []
    · simpa [last] using h
    · rw [String.intercalate_cons_of_ne_nil last] at h
      cases front : key.toList with
      | nil => simp [front] at h
      | cons c key => simpa [front] using h

theorem exists_key_of_doubled {path : List String}
    (h : ['&', '&'] <:+: (".".intercalate path).toList) :
    ∃ key ∈ path, ['&', '&'] <:+: key.toList := by
  induction path with
  | nil => simp at h
  | cons key rest ih =>
    by_cases last : rest = []
    · exact ⟨key, List.mem_cons_self, by simpa [last] using h⟩
    · have chars : (".".intercalate (key :: rest)).toList =
          key.toList ++ '.' :: (".".intercalate rest).toList := by
        simp [String.intercalate_cons_of_ne_nil last]
      rw [chars] at h
      rcases infix_of_append_cons (by decide) h with inKey | inRest
      · exact ⟨key, List.mem_cons_self, inKey⟩
      · obtain ⟨other, hother, found⟩ := ih inRest
        exact ⟨other, List.mem_cons_of_mem _ hother, found⟩

namespace Leaf

variable {leaf : Leaf}

theorem bringsStray_of_name (h : (leaf.name stem).toList.head? = some '&' ∨
    ['&', '&'] <:+: (leaf.name stem).toList) : leaf.BringsStray delimiter stem := by
  rw [name, String.toList_append] at h
  rcases h with lead | doubled
  · by_cases empty : stem = ""
    · obtain ⟨key, hkey, found⟩ := exists_first_of_lead (by simpa [empty] using lead)
      exact .first hkey found (.inl empty)
    · rw [List.head?_append_of_ne_nil _ (by simpa using empty)] at lead
      exact .stem (.inl lead)
  · rcases doubled_append doubled with inStem | inPath | ⟨behind, lead⟩
    · exact .stem (.inr inStem)
    · obtain ⟨key, hkey, found⟩ := exists_key_of_doubled inPath
      exact .key hkey found
    · obtain ⟨key, hkey, found⟩ := exists_first_of_lead lead
      exact .first hkey found (.inr behind)

theorem bringsStray_of_raw {raw : String} (hraw : raw ∈ leafRaws delimiter leaf.item)
    (h : '&' ∈ raw.toList) : leaf.BringsStray delimiter stem := by
  have list : ∃ items, leaf.item = .list items ∨ leaf.item = .tuple items := by
    unfold leafRaws at hraw
    split at hraw
    · cases hraw
    · exact ⟨_, .inl ‹_›⟩
    · exact ⟨_, .inr ‹_›⟩
    · obtain rfl := List.mem_singleton.mp hraw
      exact absurd h (delimiter.not_mem_encode (by decide))
  obtain ⟨items, list⟩ := list
  by_contra none
  refine not_mem_leafRaws (by decide) ?_ hraw h
  intro separator enabled found
  exact none (.delimiter list enabled found)

theorem bringsStray_of_stray {segment : String} (hsegment : segment ∈ leaf.segments delimiter stem)
    (stray : Stray segment.toList) : leaf.BringsStray delimiter stem := by
  obtain ⟨raw, hraw, rfl⟩ := List.mem_map.mp hsegment
  have chars : (leaf.name stem ++ "=" ++ raw).toList =
      (leaf.name stem).toList ++ '=' :: raw.toList := by simp
  rw [chars] at stray
  by_cases inRaw : '&' ∈ raw.toList
  · exact bringsStray_of_raw hraw inRaw
  · exact bringsStray_of_name (of_stray_segment inRaw stray)

end Leaf

/-- If an ampersand strays in the text of a row, it does so inside the segment of a leaf. -/
theorem exists_of_stray {leaves : List Leaf} {segments : List String}
    (h : rowSegments delimiter stem leaves = .ok segments)
    (stray : Stray (joined segments).toList) :
    ∃ leaf ∈ leaves, ∃ segment ∈ leaf.segments delimiter stem, Stray segment.toList := by
  have inside : ∃ segment ∈ segments, Stray segment.toList := by
    by_contra none
    simp only [not_exists, not_and] at none
    exact not_stray_joined (ne_empty_of_rowSegments h) none stray
  obtain ⟨segment, hsegment, found⟩ := inside
  unfold rowSegments at h
  split at h
  · cases h
  · cases h
    obtain ⟨leaf, hleaf, hsegment⟩ := List.mem_flatMap.mp hsegment
    exact ⟨leaf, hleaf, segment, hsegment, found⟩

/-! ## What is written -/

/-- What counts as nothing is written as the empty text, and any other value that is no mapping is
refused. A mapping is written as the row of its leaves, or refused for the first of them that does
not fit. No segment is empty, and an ampersand strays only inside the segment of a leaf that brings
it. -/
theorem encode_leaves (v : Value) (stem : String) (delimiter : Delimiter) :
    (encode v stem delimiter =
      if v.isNothing then .ok ""
      else
        match v with
        | .map entries => (rowSegments delimiter stem (leavesOf entries)).map joined
        | v => .error (.notAMapping v.kindName)) ∧
    (∀ failure, encode v stem delimiter = .error failure → failure.category = .type) ∧
    ∀ entries segments, v = .map entries →
      rowSegments delimiter stem (leavesOf entries) = .ok segments →
      (∀ segment ∈ segments, segment ≠ "") ∧
      (Stray (joined segments).toList →
        ∃ leaf ∈ leavesOf entries, ∃ segment ∈ leaf.segments delimiter stem,
          Stray segment.toList ∧ leaf.BringsStray delimiter stem) := by
  have written : encode v stem delimiter =
      if v.isNothing then .ok ""
      else
        match v with
        | .map entries => (rowSegments delimiter stem (leavesOf entries)).map joined
        | v => .error (.notAMapping v.kindName) := by
    unfold encode
    cases v with
    | map entries =>
      have same : (entrySegments delimiter stem entries).map joined =
          (rowSegments delimiter stem (leavesOf entries)).map joined :=
        (entrySegments_rowSegments stem entries).map_joined
      split
      · rfl
      · exact same
    | _ => rfl
  refine ⟨written, ?_, ?_⟩
  · intro failure refused
    rw [written] at refused
    split at refused
    · cases refused
    · split at refused
      · rename_i entries _
        unfold rowSegments at refused
        split at refused
        · cases refused
          rfl
        · cases refused
      · cases refused
        rfl
  · intro entries segments _ h
    refine ⟨ne_empty_of_rowSegments h, ?_⟩
    intro stray
    obtain ⟨leaf, hleaf, segment, hsegment, found⟩ := exists_of_stray h stray
    exact ⟨leaf, hleaf, segment, hsegment, found, leaf.bringsStray_of_stray hsegment found⟩

/-- A mapping with mappings and a list inside, of which one has nothing to write, and a mapping with
two items that do not fit. -/
theorem encode_leaves_of_nested :
    let entries : List (Value × Value) :=
      [(.text "a", .map
          [(.text "b", .bool true), (.text "c", .list [.null, .text "x", .text "y"])]),
        (.text "d", .map [(.text "e", .null), (.text "f", .list [])]), (.text "g", .text "")]
    let unfit : List (Value × Value) :=
      [(.text "a", .map [(.text "b", .bool true), (.text "c", .bytes [])]), (.text "d", .object)]
    let delimiter : Delimiter := some (String.singleton '|')
    (encode (.map entries) "p." delimiter = .ok "p.a.b=true&p.a.c=|x|y&p.g=" ∧
      ¬ Stray "p.a.b=true&p.a.c=|x|y&p.g=".toList) ∧
    encode (.map unfit) "p." delimiter = .error (.notEncodable "bytes" "p.a.c") := by
  intro entries unfit delimiter
  have row : rowSegments delimiter "p." (leavesOf entries) =
      .ok ["p.a.b=true", "p.a.c=|x|y", "p.g="] := rfl
  refine ⟨⟨?_, ?_⟩, ?_⟩
  · rw [(encode_leaves (.map entries) "p." delimiter).1]
    rfl
  · intro stray
    have plain : ¬ ∃ leaf ∈ leavesOf entries, ∃ segment ∈ leaf.segments delimiter "p.",
        Stray segment.toList := by
      decide
    obtain ⟨leaf, hleaf, segment, hsegment, found, -⟩ :=
      ((encode_leaves (.map entries) "p." delimiter).2.2 entries _ rfl row).2 stray
    exact plain ⟨leaf, hleaf, segment, hsegment, found⟩
  · rw [(encode_leaves (.map unfit) "p." delimiter).1]
    rfl

/-- Without an ampersand in any key, the delimiter of a list and the text before all names bring some
that stray. -/
theorem stray_without_key :
    let listed : List (Value × Value) := [(.text "k", .list [.text "", .text ""])]
    let plain : List (Value × Value) := [(.text "k", .text "x")]
    (∀ leaf ∈ leavesOf listed ++ leavesOf plain, ∀ key ∈ leaf.path, '&' ∉ key.toList) ∧
    (encode (.map listed) "" (some "&") = .ok "k=&&" ∧ Stray "k=&&".toList) ∧
    (encode (.map plain) "&" = .ok "&k=x" ∧ Stray "&k=x".toList) := by
  decide +kernel

end FragmentRouting.Query
