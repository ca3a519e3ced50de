import Mathlib.Data.List.Infix
import FragmentRouting.Query.Block
import FragmentRouting.Proofs.Query.Escaping
import FragmentRouting.Proofs.Query.NormalForm

/-!
# The pairs of an encoded mapping

A mapping becomes a row of pairs, and splitting its query string gives the same row back:

* `entryPairs`: the pairs of a mapping, with the path of each item and its raw value;
* `pairs_joined`: splitting joined segments splits every segment;
* `encode_pairs`: an encodable mapping is encoded, and its pairs are read back.
-/

namespace FragmentRouting

/-- The kinds of item that a mapping may have in a query. -/
def Value.fitsQuery : Value → Bool
  | .null | .list _ | .tuple _ | .map _ => true
  | v => v.isScalar

namespace Query

/-! ## The pairs of a mapping -/

/-- The pair with more names in front of its path. -/
def Pair.below (names : List String) (p : Pair) : Pair :=
  ⟨names ++ p.path, p.raw⟩

/-- The raw values of a list with these texts: one with a delimiter before each text, or, with
lists switched off, one for each text. -/
def listRaws (delimiter : Delimiter) (texts : List String) : List String :=
  match texts, delimiter.enabled? with
  | [], _ => []
  | _, none => texts.map delimiter.encode
  | _, some separator =>
    [String.join (texts.map fun text => String.ofList separator ++ delimiter.encode text)]

/-- The raw values of a leaf. -/
def leafRaws (delimiter : Delimiter) : Value → List String
  | .null => []
  | .list items | .tuple items => listRaws delimiter (elementTexts items)
  | v => [delimiter.encode v.queryText]

mutual

/-- The pairs of an item, with paths that begin below its key. -/
def itemPairs (delimiter : Delimiter) : Value → List Pair
  | .map entries => entryPairs delimiter entries
  | v => (leafRaws delimiter v).map (⟨[], ·⟩)

/-- The pairs of a mapping. -/
def entryPairs (delimiter : Delimiter) : List (Value × Value) → List Pair
  | [] => []
  | (key, item) :: rest =>
    (itemPairs delimiter item).map (Pair.below [key.display]) ++ entryPairs delimiter rest

end

/-! ## Splitting a query -/

theorem pairs_empty : pairs "" = [] := rfl

theorem splitOn_intercalate_filter (mark : Char) (texts : List (List Char)) :
    ([mark].intercalate texts |>.splitOn mark).filter (!·.isEmpty) =
      texts.flatMap fun text => (text.splitOn mark).filter (!·.isEmpty) := by
  induction texts with
  | nil => rfl
  | cons text rest ih =>
    cases rest with
    | nil => simp
    | cons next rest =>
      rw [List.intercalate_cons_cons, List.append_assoc, List.singleton_append,
        List.splitOn_append_cons_self, List.filter_append, ih]
      rfl

theorem joined_toList (segments : List String) :
    (joined segments).toList = ['&'].intercalate (segments.map String.toList) := by
  simp [joined, String.toList_intercalate]

/-- Splitting joined segments splits every segment. -/
theorem pairs_joined (segments : List String) :
    pairs (joined segments) = segments.flatMap pairs := by
  simp only [pairs, joined_toList, splitOn_intercalate_filter, List.flatMap_map, List.map_flatMap]
  rfl

theorem cutAt_append {mark : Char} {before : List Char} (h : mark ∉ before) (after : List Char) :
    Text.cutAt mark (before ++ mark :: after) = (before, after) := by
  induction before with
  | nil => simp [Text.cutAt]
  | cons c before ih =>
    simp only [List.mem_cons, not_or] at h
    simp [Text.cutAt, Ne.symm h.1, ih h.2]

/-! ## The names on a path -/

/-- What stands before a key whose mapping is at this path. -/
def stemOf (path : List String) : String :=
  String.join (path.map (· ++ "."))

theorem stemOf_below (path : List String) (key : String) :
    stemOf (path ++ [key]) = stemOf path ++ key ++ "." := by
  simp [stemOf, String.join_append, String.append_assoc]

theorem stemOf_toList (path : List String) :
    (stemOf path).toList = path.flatMap fun name => name.toList ++ ['.'] := by
  simp [stemOf, String.toList_join, List.flatMap_map]

theorem infix_of_append_cons {word before after : List Char} {c : Char} (h : c ∉ word)
    (hword : word <:+: before ++ c :: after) : word <:+: before ∨ word <:+: after := by
  rw [List.infix_append_iff, List.infix_cons_iff] at hword
  rcases hword with hbefore | (hc | hafter) | ⟨first, second, rfl, hfirst, hsecond⟩
  · exact .inl hbefore
  · rcases List.prefix_cons_iff.mp hc with rfl | ⟨more, rfl, -⟩
    · exact .inl List.nil_infix
    · exact absurd List.mem_cons_self h
  · exact .inr hafter
  · rcases List.prefix_cons_iff.mp hsecond with rfl | ⟨more, rfl, -⟩
    · exact .inl (by simpa using hfirst.isInfix)
    · exact absurd (List.mem_append_right _ List.mem_cons_self) h

theorem marker_of_markerLength {text : List Char} (h : markerLength text ≠ 0) :
    ∃ marker ∈ markers, marker <+: text := by
  unfold markerLength at h
  split at h
  · exact ⟨"[]".toList, by decide, _, rfl⟩
  · split at h
    · rename_i hex
      obtain ⟨rfl | rfl, rfl | rfl⟩ := hex
      · exact ⟨"%5B%5D".toList, by decide, _, rfl⟩
      · exact ⟨"%5B%5d".toList, by decide, _, rfl⟩
      · exact ⟨"%5b%5D".toList, by decide, _, rfl⟩
      · exact ⟨"%5b%5d".toList, by decide, _, rfl⟩
    · exact absurd rfl h
  · exact absurd rfl h

/-- Reading leaves a key without a list marker as it is. -/
theorem unmarked_eq {text : List Char} (h : ∀ marker ∈ markers, ¬ marker <:+: text) :
    unmarked text = text := by
  unfold unmarked
  induction text with
  | nil => rfl
  | cons c rest ih =>
    have plain : markerLength (c :: rest) = 0 := by
      by_contra found
      obtain ⟨marker, hmarker, hprefix⟩ := marker_of_markerLength found
      exact h marker hmarker hprefix.isInfix
    simp only [unmarkedFrom, plain]
    rw [ih fun marker hmarker hrest =>
      h marker hmarker (hrest.trans (List.suffix_cons c rest).isInfix)]

theorem not_infix_stem {path : List String} {key : String} (hpath : ∀ name ∈ path, PlainKey name)
    (plain : PlainKey key) {marker : List Char} (hmarker : marker ∈ markers) :
    ¬ marker <:+: (stemOf path ++ key).toList := by
  rw [String.toList_append, stemOf_toList]
  have noPoint : '.' ∉ marker := by
    revert marker
    decide
  induction path with
  | nil => exact plain.unmarked marker hmarker
  | cons name path ih =>
    obtain ⟨hname, hpath⟩ := List.forall_mem_cons.mp hpath
    intro found
    rw [List.flatMap_cons, List.append_assoc, List.append_assoc, List.singleton_append] at found
    rcases infix_of_append_cons noPoint found with inName | inRest
    · exact hname.unmarked marker hmarker inName
    · exact ih hpath inRest

theorem splitOn_stem {path : List String} {key : String} (hpath : ∀ name ∈ path, PlainKey name)
    (plain : PlainKey key) :
    ((stemOf path ++ key).toList.splitOn '.').map String.ofList = path ++ [key] := by
  rw [String.toList_append, stemOf_toList]
  induction path with
  | nil => simp [List.splitOn_eq_singleton plain.noPath]
  | cons name path ih =>
    obtain ⟨hname, hpath⟩ := List.forall_mem_cons.mp hpath
    rw [List.flatMap_cons, List.append_assoc, List.append_assoc, List.singleton_append,
      List.splitOn_append_cons_self_of_not_mem hname.noPath, List.map_cons, ih hpath]
    simp

/-- The key of a segment is read as the path it was written for. -/
theorem pathOf_stem {path : List String} {key : String} (hpath : ∀ name ∈ path, PlainKey name)
    (plain : PlainKey key) : pathOf (stemOf path ++ key).toList = path ++ [key] := by
  unfold pathOf
  rw [unmarked_eq fun marker => not_infix_stem hpath plain, splitOn_stem hpath plain]

theorem not_mem_stem {path : List String} {key : String} (hpath : ∀ name ∈ path, PlainKey name)
    (plain : PlainKey key) :
    '&' ∉ (stemOf path ++ key).toList ∧ '=' ∉ (stemOf path ++ key).toList := by
  rw [String.toList_append, stemOf_toList]
  simp only [List.mem_append, List.mem_flatMap, List.mem_singleton, not_or, not_exists, not_and]
  exact ⟨⟨fun name hname => ⟨(hpath name hname).noPair, by decide⟩, plain.noPair⟩,
    fun name hname => ⟨(hpath name hname).noValue, by decide⟩, plain.noValue⟩

/-! ## The segments of a mapping -/

/-- A segment is one pair. -/
theorem pairs_segment {name raw : String} (noPair : '&' ∉ name.toList)
    (noValue : '=' ∉ name.toList) (noPair' : '&' ∉ raw.toList) :
    pairs (name ++ "=" ++ raw) = [⟨pathOf name.toList, raw⟩] := by
  have chars : (name ++ "=" ++ raw).toList = name.toList ++ '=' :: raw.toList := by simp
  have whole : '&' ∉ name.toList ++ '=' :: raw.toList := by simp [noPair, noPair']
  simp [pairs, chars, List.splitOn_eq_singleton whole, Pair.ofText, cutAt_append noValue]

variable {delimiter : Delimiter} {mark : Option Char}

/-- A raw value holds none of the characters that end it, unless the delimiter does. -/
theorem not_mem_leafRaws {x : Char} (hx : x ∈ ['&', '=', '?', '\n'])
    (apart : ∀ separator, delimiter.enabled? = some separator → x ∉ separator) {v : Value}
    {raw : String} (h : raw ∈ leafRaws delimiter v) : x ∉ raw.toList := by
  have escaped (text : String) : x ∉ (delimiter.encode text).toList := delimiter.not_mem_encode hx
  have listed (texts : List String) (h : raw ∈ listRaws delimiter texts) : x ∉ raw.toList := by
    unfold listRaws at h
    split at h
    · cases h
    · obtain ⟨t, -, rfl⟩ := List.mem_map.mp h
      exact escaped t
    · rename_i separator _ enabled
      obtain rfl := List.mem_singleton.mp h
      simp [String.toList_join, List.mem_flatMap, apart separator enabled, escaped]
  unfold leafRaws at h
  split at h
  · cases h
  · exact listed _ h
  · exact listed _ h
  · obtain rfl := List.mem_singleton.mp h
    exact escaped _

/-- The texts of a list's segments are those of its elements. -/
theorem encodedTexts {present : Value → Bool} (hnull : present .null = false)
    (hother : ∀ v, v ≠ .null → present v = true) (items : List Value) :
    (items.filter present).map (fun v => fieldText v delimiter) =
      (elementTexts items).map delimiter.encode := by
  induction items with
  | nil => rfl
  | cons v rest ih =>
    cases v with
    | null => simpa [hnull, elementTexts] using ih
    | _ => simpa [hother, elementTexts, fieldText] using ih

theorem listSegments_eq (name : String) (items : List Value) :
    listSegments delimiter name items =
      (listRaws delimiter (elementTexts items)).map (name ++ "=" ++ ·) := by
  unfold listSegments listRaws
  dsimp only
  rw [encodedTexts rfl fun v hv => by cases v <;> first | rfl | exact absurd rfl hv]
  cases elementTexts items with
  | nil => rfl
  | cons text rest => cases delimiter.enabled? <;> simp [Function.comp_def]

/-- An item that is no mapping has a text for each of its raw values, or does not fit. -/
theorem itemSegments_plain (name : String) {v : Value} (h : ∀ entries, v ≠ .map entries) :
    itemSegments delimiter name v =
      if v.fitsQuery then .ok ((leafRaws delimiter v).map (name ++ "=" ++ ·))
      else .error (.notEncodable v.kindName name) := by
  cases v with
  | map entries => exact absurd rfl (h entries)
  | list items | tuple items =>
    simp [itemSegments, Value.fitsQuery, leafRaws, listSegments_eq]
  | _ => simp [itemSegments, Value.fitsQuery, Value.isScalar, leafRaws, fieldText]

theorem IsLeaf.fitsQuery {v : Value} (h : IsLeaf v) : v.fitsQuery = true := by
  cases v with
  | map entries => rfl
  | _ => simp_all [IsLeaf, IsElement, Value.fitsQuery, Value.isScalar]

theorem IsLeaf.ne_map {v : Value} (h : IsLeaf v) (entries : List (Value × Value)) :
    v ≠ .map entries := by
  rintro rfl
  simp [IsLeaf, IsElement, Value.isScalar] at h

theorem itemSegments_leaf (name : String) {v : Value} (h : IsLeaf v) :
    itemSegments delimiter name v =
      .ok ((leafRaws delimiter v).map (name ++ "=" ++ ·)) := by
  rw [itemSegments_plain name h.ne_map, if_pos h.fitsQuery]

theorem itemPairs_leaf {v : Value} (h : IsLeaf v) :
    itemPairs delimiter v = (leafRaws delimiter v).map (⟨[], ·⟩) := by
  cases v with
  | map entries => exact absurd rfl (h.ne_map entries)
  | _ => rfl

/-- The segments of an encodable mapping are read as its pairs. -/
theorem entrySegments_pairs (hmark : delimiter.IsMark mark) {entries : List (Value × Value)}
    (h : Encodable entries) {path : List String} (hpath : ∀ name ∈ path, PlainKey name) :
    ∃ segments, entrySegments delimiter (stemOf path) entries = .ok segments ∧
      segments.flatMap pairs = (entryPairs delimiter entries).map (Pair.below path) := by
  induction h generalizing path with
  | nil => exact ⟨[], rfl, rfl⟩
  | @leaf key item rest plain _ hitem _ ih =>
    obtain ⟨segments, hsegments, hpairs⟩ := ih hpath
    refine ⟨_, by
      simp only [entrySegments, Value.display, itemSegments_leaf _ hitem, hsegments]; rfl, ?_⟩
    have first : ((leafRaws delimiter item).map (stemOf path ++ key ++ "=" ++ ·)).flatMap pairs =
        (leafRaws delimiter item).map (⟨path ++ [key], ·⟩) := by
      rw [List.flatMap_map, List.map_eq_flatMap]
      apply List.flatMap_congr
      intro raw hraw
      have other : mark ≠ some '&' := fun e => (hmark.free _ e).1 (by decide)
      have hraw : '&' ∉ raw.toList :=
        not_mem_leafRaws (by decide) (hmark.not_mem_enabled other) hraw
      rw [pairs_segment (not_mem_stem hpath plain).1 (not_mem_stem hpath plain).2 hraw,
        pathOf_stem hpath plain]
    rw [List.flatMap_append, first, hpairs]
    simp [entryPairs, itemPairs_leaf hitem, Pair.below, Function.comp_def, Value.display]
  | @nested key inner rest plain _ _ _ ih ih' =>
    have hbelow : ∀ name ∈ path ++ [key], PlainKey name := by
      intro name hname
      rcases List.mem_append.mp hname with hname | hname
      · exact hpath name hname
      · exact List.mem_singleton.mp hname ▸ plain
    obtain ⟨within, hwithin, hinner⟩ := ih hbelow
    obtain ⟨segments, hsegments, hrest⟩ := ih' hpath
    let first := if (joined within).isEmpty then [] else [joined within]
    have hfirst : first.flatMap pairs = within.flatMap pairs := by
      rw [← pairs_joined within]
      by_cases nothing : joined within = ""
      · simp [first, nothing, pairs_empty]
      · simp [first, nothing]
    refine ⟨first ++ segments, ?_, ?_⟩
    · rw [stemOf_below] at hwithin
      simp only [entrySegments, itemSegments, Value.display, hwithin, hsegments]
      rfl
    · rw [List.flatMap_append, hfirst, hinner, hrest]
      simp [entryPairs, itemPairs, Pair.below, Function.comp_def, Value.display]

/-- An encodable mapping is encoded, and its query is read as its pairs. -/
theorem encode_pairs (hmark : delimiter.IsMark mark) {entries : List (Value × Value)}
    (h : Encodable entries) :
    ∃ text, encode (.map entries) "" delimiter = .ok text ∧
      pairs text = entryPairs delimiter entries := by
  obtain ⟨segments, hsegments, hpairs⟩ :=
    entrySegments_pairs hmark h (List.forall_mem_nil PlainKey)
  have top : (entryPairs delimiter entries).map (Pair.below []) = entryPairs delimiter entries :=
    List.map_id _
  cases entries with
  | nil => exact ⟨"", rfl, rfl⟩
  | cons entry rest =>
    refine ⟨joined segments, ?_, ?_⟩
    · have hsegments : entrySegments delimiter "" (entry :: rest) = .ok segments := hsegments
      simp only [encode, Value.isNothing, hsegments]
      rfl
    · rw [pairs_joined, hpairs, top]

/-! ## Queries on one line -/

theorem oneLine_joined {segments : List String} (h : ∀ s ∈ segments, '\n' ∉ s.toList) :
    '\n' ∉ (joined segments).toList := by
  rw [joined_toList]
  induction segments with
  | nil => simp
  | cons segment rest ih =>
    obtain ⟨hsegment, hrest⟩ := List.forall_mem_cons.mp h
    cases rest with
    | nil => simpa using hsegment
    | cons next rest =>
      have := ih hrest
      rw [List.map_cons, List.map_cons, List.intercalate_cons_cons]
      simp only [List.mem_append, not_or]
      exact ⟨⟨hsegment, by decide⟩, this⟩

theorem entrySegments_cons {stem : String} {key item : Value} {rest : List (Value × Value)}
    {segments : List String}
    (h : entrySegments delimiter stem ((key, item) :: rest) = .ok segments) :
    ∃ first more, itemSegments delimiter (stem ++ key.display) item = .ok first ∧
      entrySegments delimiter stem rest = .ok more ∧ segments = first ++ more := by
  rw [entrySegments] at h
  cases hfirst : itemSegments delimiter (stem ++ key.display) item with
  | error failure => rw [hfirst] at h; cases h
  | ok first =>
    cases hmore : entrySegments delimiter stem rest with
    | error failure => rw [hfirst, hmore] at h; cases h
    | ok more =>
      rw [hfirst, hmore] at h
      cases h
      exact ⟨first, more, rfl, rfl, rfl⟩

theorem itemSegments_map {name : String} {entries : List (Value × Value)}
    {segments : List String} (h : itemSegments delimiter name (.map entries) = .ok segments) :
    ∃ within, entrySegments delimiter (name ++ ".") entries = .ok within ∧
      segments ⊆ [joined within] := by
  rw [itemSegments] at h
  cases hwithin : entrySegments delimiter (name ++ ".") entries with
  | error failure => rw [hwithin] at h; cases h
  | ok within =>
    rw [hwithin] at h
    cases h
    refine ⟨within, rfl, ?_⟩
    split <;> simp

/-- A mapping whose keys have no line feed has none in its segments. -/
theorem oneLine_entrySegments (hmark : delimiter.IsMark mark) (other : mark ≠ some '\n')
    {entries : List (Value × Value)} (h : Encodable entries)
    (hkeys : ∀ key ∈ entryKeys entries, '\n' ∉ key.toList) {stem : String}
    (hstem : '\n' ∉ stem.toList) {segments : List String}
    (hsegments : entrySegments delimiter stem entries = .ok segments) :
    ∀ s ∈ segments, '\n' ∉ s.toList := by
  induction h generalizing stem segments with
  | nil =>
    cases hsegments
    exact List.forall_mem_nil _
  | @leaf key item rest _ _ hitem _ ih =>
    obtain ⟨first, more, hfirst, hmore, rfl⟩ := entrySegments_cons hsegments
    simp only [entryKeys, Value.display, List.forall_mem_cons, List.forall_mem_append] at hkeys
    obtain ⟨⟨hkey, -⟩, hrest⟩ := hkeys
    rw [itemSegments_leaf _ hitem] at hfirst
    cases hfirst
    rw [List.forall_mem_append]
    constructor
    · intro s hs
      obtain ⟨raw, hraw, rfl⟩ := List.mem_map.mp hs
      have := not_mem_leafRaws (by decide) (hmark.not_mem_enabled other) hraw
      simp [Value.display, hstem, hkey, this]
    · exact ih hrest hstem hmore
  | @nested key inner rest _ _ _ _ ih ih' =>
    obtain ⟨first, more, hfirst, hmore, rfl⟩ := entrySegments_cons hsegments
    simp only [entryKeys, keysWithin, Value.display, List.forall_mem_cons,
      List.forall_mem_append] at hkeys
    obtain ⟨⟨hkey, hinner⟩, hrest⟩ := hkeys
    obtain ⟨within, hwithin, hsub⟩ := itemSegments_map hfirst
    have hbelow : '\n' ∉ (stem ++ key ++ ".").toList := by simp [hstem, hkey]
    rw [List.forall_mem_append]
    constructor
    · intro s hs
      obtain rfl := List.mem_singleton.mp (hsub hs)
      exact oneLine_joined (ih hinner hbelow hwithin)
    · exact ih' hrest hstem hmore

/-- The query of a mapping whose keys have no line feed lies on one line. -/
theorem oneLine_encode (hmark : delimiter.IsMark mark) (other : mark ≠ some '\n')
    {entries : List (Value × Value)} (h : Encodable entries)
    (hkeys : ∀ key ∈ entryKeys entries, '\n' ∉ key.toList) {text : String}
    (htext : encode (.map entries) "" delimiter = .ok text) : '\n' ∉ text.toList := by
  cases entries with
  | nil =>
    cases htext
    decide
  | cons entry rest =>
    simp only [encode, Value.isNothing, List.isEmpty_cons, Bool.false_eq_true, if_false] at htext
    cases hsegments : entrySegments delimiter "" (entry :: rest) with
    | error failure => rw [hsegments] at htext; cases htext
    | ok segments =>
      rw [hsegments] at htext
      cases htext
      exact oneLine_joined (oneLine_entrySegments hmark other h hkeys (by decide) hsegments)

end Query

end FragmentRouting
