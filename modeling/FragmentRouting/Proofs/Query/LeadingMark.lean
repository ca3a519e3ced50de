import FragmentRouting.Proofs.Query.Refusal

/-!
# A question mark in front of a query

A written query begins with the names above its first leaf, so a question mark in front of it
belongs to the first of them:

* `mem_entryKeys_of_leaf`: the names above a leaf are keys;
* `pairs_path`: a segment under plain names is read as these names;
* `pairs_behind_mark`: without the question mark, the first name is cut short.
-/

namespace FragmentRouting.Query

variable {entries : List (Value × Value)} {c : Char}

mutual

theorem mem_keysWithin_of_leaf (v : Value) {leaf : Leaf} (h : leaf ∈ leavesWithin v) :
    ∀ name ∈ leaf.path, name ∈ keysWithin v := by
  cases v with
  | map entries => exact mem_entryKeys_of_leaf entries h
  | _ =>
    obtain rfl := List.mem_singleton.mp h
    exact List.forall_mem_nil _

/-- The names above a leaf are keys of the mapping at some depth. -/
theorem mem_entryKeys_of_leaf (entries : List (Value × Value)) {leaf : Leaf}
    (h : leaf ∈ leavesOf entries) : ∀ name ∈ leaf.path, name ∈ entryKeys entries := by
  match entries with
  | [] => cases h
  | (key, item) :: rest =>
    intro name hname
    rw [leavesOf, List.mem_append] at h
    rw [entryKeys, List.mem_append]
    rcases h with h | h
    · obtain ⟨inner, hinner, rfl⟩ := List.mem_map.mp h
      rcases List.mem_cons.mp hname with rfl | hname
      · exact .inl List.mem_cons_self
      · exact .inl (List.mem_cons_of_mem _ (mem_keysWithin_of_leaf item hinner name hname))
    · exact .inr (mem_entryKeys_of_leaf rest h name hname)

end

theorem intercalate_concat (path : List String) (key : String) :
    ".".intercalate (path ++ [key]) = stemOf path ++ key := by
  induction path with
  | nil => simp [stemOf]
  | cons name path ih =>
    rw [List.cons_append, String.intercalate_cons_of_ne_nil (by simp), ih]
    simp [stemOf, String.append_assoc]

/-- A segment under plain names is one pair with these names on its path. -/
theorem pairs_path {path : List String} (some : path ≠ []) (plain : ∀ name ∈ path, PlainKey name)
    {raw : String} (noPair : '&' ∉ raw.toList) :
    pairs (".".intercalate path ++ "=" ++ raw) = [⟨path, raw⟩] := by
  obtain ⟨stem, key, rfl⟩ := (List.eq_nil_or_concat' path).resolve_left some
  obtain ⟨hstem, hkey⟩ := List.forall_mem_append.mp plain
  have hkey := List.forall_mem_singleton.mp hkey
  obtain ⟨noPair', noValue⟩ := not_mem_stem hstem hkey
  rw [intercalate_concat, pairs_segment noPair' noValue noPair, pathOf_stem hstem hkey]

/-- A name stays plain without the character that it begins with. -/
theorem PlainKey.tail {d : Char} {name : String} (h : PlainKey (String.singleton d ++ name)) :
    PlainKey name := by
  have chars : (String.singleton d ++ name).toList = d :: name.toList := by simp
  have suffix : name.toList <:+ (String.singleton d ++ name).toList :=
    chars ▸ List.suffix_cons _ _
  constructor
  · exact fun found => h.noPair (suffix.subset found)
  · exact fun found => h.noValue (suffix.subset found)
  · exact fun found => h.noPath (suffix.subset found)
  · exact fun marker hmarker found => h.unmarked marker hmarker (found.trans suffix.isInfix)

/-- Behind the first name of a row of segments stands a point or an equals sign, and the rest does
not hang on the name. -/
theorem exists_behind_name (path : List String) (raw : String) (others : List String) :
    ∃ behind : String, behind.toList.head? ∈ [some '.', some '='] ∧
      ∀ name, joined ((".".intercalate (name :: path) ++ "=" ++ raw) :: others) =
        name ++ behind := by
  have segment : ∃ behind : String, behind.toList.head? ∈ [some '.', some '='] ∧
      ∀ name, ".".intercalate (name :: path) ++ "=" ++ raw = name ++ behind := by
    cases path with
    | nil => exact ⟨"=" ++ raw, by simp, by simp [String.append_assoc]⟩
    | cons next path =>
      refine ⟨"." ++ ".".intercalate (next :: path) ++ "=" ++ raw, by simp, ?_⟩
      intro name
      rw [String.intercalate_cons_of_ne_nil (List.cons_ne_nil _ _)]
      simp only [String.append_assoc]
  obtain ⟨behind, begins, hsegment⟩ := segment
  cases others with
  | nil => exact ⟨behind, begins, by simp [joined, hsegment]⟩
  | cons other others =>
    refine ⟨behind ++ "&" ++ joined (other :: others), ?_, ?_⟩
    · rcases List.mem_pair.mp begins with point | equals
      · simp [point]
      · simp [equals]
    · intro name
      rw [joined, String.intercalate_cons_of_ne_nil (List.cons_ne_nil _ _), hsegment]
      simp only [joined, String.append_assoc]

/-- A question mark in front of a name and what stands behind it belongs to the name. -/
theorem exists_name_behind_mark {first behind rest : String}
    (begins : behind.toList.head? ∈ [some '.', some '=']) (cut : "?" ++ rest = first ++ behind) :
    ∃ name, first = "?" ++ name ∧ rest = name ++ behind := by
  have chars : '?' :: rest.toList = first.toList ++ behind.toList := by
    simpa using congrArg String.toList cut
  cases hfirst : first.toList with
  | nil =>
    rw [hfirst, List.nil_append] at chars
    simp [← chars] at begins
  | cons d name =>
    rw [hfirst, List.cons_append] at chars
    obtain ⟨rfl, hrest⟩ := List.cons_eq_cons.mp chars
    refine ⟨String.ofList name, ?_, ?_⟩
    · simp [← String.toList_inj, hfirst]
    · simp [← String.toList_inj, hrest]

theorem joined_of_encode {text : String} {delimiter : Delimiter}
    (h : encode (.map entries) "" delimiter = .ok text) :
    text = joined ((leavesOf entries).flatMap (Leaf.segments delimiter "")) := by
  rw [encode_map, (entrySegments_rowSegments "" entries).map_joined, rowSegments] at h
  split at h
  · cases h
  · cases h
    rfl

/-- A query that begins with a question mark has it from the first name of its first pair, and
without it this name is cut short, and nothing else changes. -/
theorem pairs_behind_mark {delimiter : Delimiter} (hmark : delimiter.IsMark (some c))
    (plain : ∀ key ∈ entryKeys entries, PlainKey key) {rest : String}
    (h : encode (.map entries) "" delimiter = .ok ("?" ++ rest)) :
    ∃ name path raw others, pairs ("?" ++ rest) = ⟨("?" ++ name) :: path, raw⟩ :: others ∧
      pairs rest = ⟨name :: path, raw⟩ :: others := by
  have row := joined_of_encode h
  cases segments : (leavesOf entries).flatMap (Leaf.segments delimiter "") with
  | nil =>
    rw [segments] at row
    simp [joined] at row
  | cons segment others =>
    have member : segment ∈ (leavesOf entries).flatMap (Leaf.segments delimiter "") :=
      segments ▸ List.mem_cons_self
    obtain ⟨leaf, hleaf, hsegment⟩ := List.mem_flatMap.mp member
    obtain ⟨raw, hraw, rfl⟩ := List.mem_map.mp hsegment
    have other : some c ≠ some '&' := fun same => (hmark.free _ same).1 (by decide)
    have noPair : '&' ∉ raw.toList :=
      not_mem_leafRaws (by decide) (hmark.not_mem_enabled other) hraw
    have names : ∀ name ∈ leaf.path, PlainKey name := fun name hname =>
      plain name (mem_entryKeys_of_leaf entries hleaf name hname)
    obtain ⟨first, path, hpath⟩ := List.exists_cons_of_ne_nil (Leaf.path_ne_nil hleaf)
    rw [hpath] at names
    obtain ⟨behind, begins, hbehind⟩ := exists_behind_name path raw others
    rw [segments, Leaf.name, hpath, String.empty_append] at row
    obtain ⟨name, rfl, rfl⟩ := exists_name_behind_mark begins (row.trans (hbehind first))
    obtain ⟨hfirst, hpath⟩ := List.forall_mem_cons.mp names
    have short : ∀ key ∈ name :: path, PlainKey key :=
      List.forall_mem_cons.mpr ⟨PlainKey.tail (d := '?') hfirst, hpath⟩
    refine ⟨name, path, raw, others.flatMap pairs, ?_, ?_⟩
    · rw [row, pairs_joined, List.flatMap_cons, pairs_path (List.cons_ne_nil _ _) names noPair]
      rfl
    · rw [← hbehind name, pairs_joined, List.flatMap_cons,
        pairs_path (List.cons_ne_nil _ _) short noPair]
      rfl

end FragmentRouting.Query
