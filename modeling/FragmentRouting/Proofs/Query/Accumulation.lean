import FragmentRouting.Proofs.Query.Repetition
import FragmentRouting.Proofs.Query.Shape

/-!
# Raw values at one path

What the pairs at a path add up to if no pair above or below the path comes between them:

* `items?_eq_none_iff`: a raw value is a list exactly if the delimiter occurs in it;
* `at?_foldl_own`: pairs at one path are absorbed one after the other;
* `foldl_absorb_list`: a list replaces what was there, and texts are put behind it;
* `at?_decode_of_alone`: what stands at the path in the end, told by the raw values alone.
-/

namespace FragmentRouting

/-- A text is in one piece exactly if the separator does not occur in it. -/
theorem Text.length_pieces_eq_one_iff {separator : List Char} (nonempty : separator ≠ [])
    (text : List Char) : (Text.pieces separator text).length = 1 ↔ ¬ separator <:+: text := by
  induction text with
  | nil => simpa [Text.pieces_nil] using nonempty
  | cons c rest ih =>
    by_cases found : separator <+: c :: rest
    · obtain ⟨after, hafter⟩ := id found
      have more := List.length_pos_iff.mpr (Text.pieces_ne_nil separator after)
      rw [← hafter, Text.pieces_append nonempty, hafter, List.length_cons]
      exact iff_of_false (by omega) (not_not_intro found.isInfix)
    · rw [Text.pieces_cons found, List.length_modifyHead, ih, List.infix_cons_iff]
      simp [found]

namespace Delimiter

variable {delimiter : Delimiter} {separator : List Char} {raw : String}

/-- A raw value in which the delimiter occurs is a list of its pieces, without the empty ones. -/
theorem items?_of_occurs (h : delimiter.enabled? = some separator)
    (occurs : separator <:+: raw.toList) :
    delimiter.items? raw =
      some (((Text.pieces separator raw.toList).filter (!·.isEmpty)).map String.ofList) := by
  have several := mt (Text.length_pieces_eq_one_iff (enabled?_ne_nil h) raw.toList).mp
    (not_not_intro occurs)
  simp only [items?, h]
  split
  · rename_i single
    rw [single] at several
    exact absurd rfl several
  · rfl

theorem items?_eq_none_iff :
    delimiter.items? raw = none ↔
      ∀ separator, delimiter.enabled? = some separator → ¬ separator <:+: raw.toList := by
  constructor
  · intro single separator h occurs
    rw [items?_of_occurs h occurs] at single
    cases single
  · intro absent
    rw [items?]
    cases h : delimiter.enabled? with
    | none => rfl
    | some separator =>
      have whole :=
        (Text.length_pieces_eq_one_iff (enabled?_ne_nil h) raw.toList).mpr (absent separator h)
      obtain ⟨piece, single⟩ := List.length_eq_one_iff.mp whole
      simp only [single]

end Delimiter

namespace Query

open Block (at?)

variable {delimiter : Delimiter} {path : List String}

/-- Pairs at one path are absorbed there one after the other. -/
theorem at?_foldl_own (hpath : path ≠ []) {row : List Pair} (own : ∀ p ∈ row, p.path = path)
    (b : Block) :
    at? path (row.foldl (addPair delimiter) b) =
      (row.map Pair.raw).foldl (fun current raw => some (absorb delimiter raw current))
        (at? path b) := by
  induction row generalizing b with
  | nil => rfl
  | cons p row ih =>
    obtain ⟨rfl, hrow⟩ := List.forall_mem_cons.mp own
    rw [List.foldl_cons, ih hrow, at?_addPair_self hpath]
    rfl

/-- Texts are put behind a list, all of them and in their order. -/
theorem foldl_absorb_list {raws : List String} (single : ∀ raw ∈ raws, delimiter.items? raw = none)
    (items : List Parameter) :
    raws.foldl (fun current raw => some (absorb delimiter raw current)) (some (.list items)) =
      some (.list (items ++ raws.map fun raw => .text (Percent.decode raw))) := by
  induction raws generalizing items with
  | nil => simp
  | cons raw raws ih =>
    obtain ⟨hraw, hraws⟩ := List.forall_mem_cons.mp single
    have step : absorb delimiter raw (some (.list items)) =
        .list (items ++ [.text (Percent.decode raw)]) := by
      rw [absorb, hraw]
    rw [List.foldl_cons, step, ih hraws]
    simp

/-- A list replaces whatever was there before it. -/
theorem foldl_absorb_last {front back : List String} {raw : String} {items : List String}
    (listed : delimiter.items? raw = some items)
    (single : ∀ later ∈ back, delimiter.items? later = none) (current : Option Parameter) :
    (front ++ raw :: back).foldl (fun current raw => some (absorb delimiter raw current)) current =
      some (.list (items.map (fun item => .text (Percent.decode item)) ++
        back.map fun later => .text (Percent.decode later))) := by
  rw [List.foldl_append, List.foldl_cons, absorb, listed]
  exact foldl_absorb_list single _

/-- Where all related pairs are at the path itself, their raw values are absorbed there one after
the other, and nothing else counts. -/
theorem at?_decode_own {text : String}
    (alone : ∀ p ∈ pairs text, Related path p.path → p.path = path) {raws : List String}
    (hraws : ((pairs text).filter (·.path = path)).map Pair.raw = raws) (nonempty : raws ≠ []) :
    at? path (decode text delimiter) =
      raws.foldl (fun current raw => some (absorb delimiter raw current)) none := by
  have paths : ∀ p ∈ pairs text, p.path ≠ [] := fun p => path_ne_nil_of_mem_pairs
  have own : ∀ p ∈ (pairs text).filter (·.path = path), p.path = path :=
    fun p hp => of_decide_eq_true (List.mem_filter.mp hp).2
  have hpath : path ≠ [] := by
    obtain ⟨raw, hraw⟩ := List.exists_mem_of_ne_nil _ nonempty
    rw [← hraws] at hraw
    obtain ⟨p, hp, rfl⟩ := List.mem_map.mp hraw
    rw [← own p hp]
    exact paths p (List.mem_of_mem_filter hp)
  have same : (pairs text).filter (fun p => Related path p.path) =
      (pairs text).filter (·.path = path) := by
    apply List.filter_congr
    intro p hp
    exact decide_eq_decide.mpr ⟨alone p hp, fun own => own ▸ .inl List.prefix_rfl⟩
  have related : at? path (decode text delimiter) = at? path
      (((pairs text).filter fun p => Related path p.path).foldl (addPair delimiter) []) :=
    at?_foldl_related paths rfl
  rw [related, same, at?_foldl_own hpath own, hraws, at?_nil_of_ne_nil hpath]

/-- Where all related pairs are at the path itself, their raw values tell what is read there. The
last one with the delimiter in it is a list of its pieces that replaces all before it, and the later ones
are put behind these. If the delimiter is in none of them, or is switched off, all are gathered. -/
theorem at?_decode_of_alone {text : String} {delimiter : Delimiter} {path : List String}
    (alone : ∀ p ∈ pairs text, Related path p.path → p.path = path) {raws : List String}
    (hraws : ((pairs text).filter (·.path = path)).map Pair.raw = raws) (nonempty : raws ≠ []) :
    (∀ separator front raw back, delimiter.enabled? = some separator →
        raws = front ++ raw :: back → separator <:+: raw.toList →
        (∀ later ∈ back, ¬ separator <:+: later.toList) →
        at? path (decode text delimiter) = some (.list
          ((((Text.pieces separator raw.toList).filter (!·.isEmpty)).map fun piece =>
              .text (Percent.decode (String.ofList piece))) ++
            back.map fun later => .text (Percent.decode later)))) ∧
      ((∀ separator, delimiter.enabled? = some separator →
          ∀ raw ∈ raws, ¬ separator <:+: raw.toList) →
        at? path (decode text delimiter) = some (gathered (raws.map Percent.decode))) := by
  have read := @at?_decode_own delimiter path text alone raws hraws nonempty
  constructor
  · intro separator front raw back enabled split occurs last
    have items := Delimiter.items?_of_occurs enabled occurs
    have single : ∀ later ∈ back, delimiter.items? later = none := by
      intro later hlater
      refine Delimiter.items?_eq_none_iff.mpr fun other hother => ?_
      obtain rfl := Option.some.inj (enabled.symm.trans hother)
      exact last later hlater
    rw [read, split, foldl_absorb_last items single, List.map_map]
    rfl
  · intro absent
    have single : ∀ raw ∈ raws, delimiter.items? raw = none := fun raw hraw =>
      Delimiter.items?_eq_none_iff.mpr fun separator enabled => absent separator enabled raw hraw
    rw [read, foldl_absorb_none single nonempty]

/-- A delimiter of two characters, with empty pieces, between values at another path. -/
theorem at?_decode_of_alone_of_replaced :
    let text := "t=a&u=1&t=||b||||c%20&u.v=&t=&t=%7C|"
    let raws := ["a", "||b||||c%20", "", "%7C|"]
    ((∀ p ∈ pairs text, Related ["t"] p.path → p.path = ["t"]) ∧
        ((pairs text).filter (·.path = ["t"])).map Pair.raw = raws ∧ raws ≠ []) ∧
      at? ["t"] (decode text (some "||")) =
        some (.list [.text "b", .text "c ", .text "", .text "||"]) ∧
      at? ["t"] (decode text none) =
        some (.list [.text "a", .text "||b||||c ", .text "", .text "||"]) := by
  intro text raws
  have alone : ∀ p ∈ pairs text, Related ["t"] p.path → p.path = ["t"] := by decide +kernel
  have row : ((pairs text).filter (·.path = ["t"])).map Pair.raw = raws := by decide +kernel
  have nonempty : raws ≠ [] := List.cons_ne_nil _ _
  have main (delimiter : Delimiter) :=
    @at?_decode_of_alone text delimiter ["t"] alone raws row nonempty
  have pieces : (Text.pieces ['|', '|'] "||b||||c%20".toList).filter (!·.isEmpty) =
      ["b".toList, "c%20".toList] := by decide +kernel
  have items : Percent.decode "b" = "b" ∧ Percent.decode "c%20" = "c " ∧ Percent.decode "" = "" ∧
      Percent.decode "%7C|" = "||" := by decide +kernel
  have texts : raws.map Percent.decode = ["a", "||b||||c ", "", "||"] := by decide +kernel
  refine ⟨⟨alone, row, nonempty⟩, ?_, ?_⟩
  · have value := (main (some "||")).1 ['|', '|'] ["a"] "||b||||c%20" ["", "%7C|"] (by decide) rfl
      (by decide) (by decide)
    rw [value, pieces]
    simp only [List.map_cons, List.map_nil, String.ofList_toList, items]
    rfl
  · have value := (main none).2 (by simp [Delimiter.enabled?])
    rw [value, texts]
    rfl

end Query

end FragmentRouting
