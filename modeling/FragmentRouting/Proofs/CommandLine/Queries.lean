import Mathlib
import FragmentRouting.CommandLine.Run
import FragmentRouting.Proofs.Json.Reader
import FragmentRouting.Proofs.Query.LeadingMark
import FragmentRouting.Proofs.Query.RoundTrip

/-!
# Queries on the command line

What one command prints for an object, the other one reads, except that it takes a question mark in
front for the mark of a query:

* `encodable_of_isJson`: an object with plain names has a query, if its lists hold elements only;
* `withConfig_eq`: both commands work under the delimiter that they are given;
* `exists_printed`: an object with a query is printed as this query;
* `runDecode_printed`: what is printed for a query that was printed.
-/

namespace FragmentRouting.CommandLine

open Json (IsJson members)
open Query

variable {entries : List (Value × Value)} {c : Char}

/-! ## Objects -/

theorem isLeaf_of_isJson {v : Value} (h : IsJson v) (plain : ∀ inner, v ≠ .map inner)
    (elements : ∀ items, v = .list items → ∀ item ∈ items, IsElement item) : IsLeaf v := by
  cases h with
  | null => exact .inl rfl
  | bool | int | float | text => exact .inr rfl
  | list => exact elements _ rfl
  | object => exact absurd rfl (plain _)

theorem encodable_members {m : Entries String Value} (distinct : (m.map Prod.fst).Nodup)
    (plain : ∀ key ∈ entryKeys (members m), PlainKey key)
    (items : ∀ e ∈ m, IsLeaf e.2 ∨ ∃ inner, e.2 = .map inner ∧ Encodable inner) :
    Encodable (members m) := by
  induction m with
  | nil => exact .nil
  | cons e rest ih =>
    obtain ⟨name, item⟩ := e
    obtain ⟨absent, distinct⟩ := List.nodup_cons.mp distinct
    obtain ⟨hitem, items⟩ := List.forall_mem_cons.mp items
    obtain ⟨⟨hname, -⟩, hrest⟩ : (PlainKey name ∧ ∀ key ∈ keysWithin item, PlainKey key) ∧
        ∀ key ∈ entryKeys (members rest), PlainKey key := by
      simpa [members, entryKeys, Value.display, or_imp, forall_and, and_assoc] using plain
    have fresh : Value.text name ∉ (members rest).map Prod.fst := by
      simpa [members] using absent
    have rest := ih distinct hrest items
    rcases hitem with leaf | ⟨inner, rfl, nested⟩
    · exact .leaf hname fresh leaf rest
    · exact .nested hname fresh nested rest

theorem keysWithin_subset {key item : Value} (h : (key, item) ∈ entries) :
    keysWithin item ⊆ entryKeys entries := by
  induction entries with
  | nil => cases h
  | cons entry rest ih =>
    intro name hname
    rw [entryKeys, List.mem_append]
    rcases List.mem_cons.mp h with rfl | h
    · exact .inl (List.mem_cons_of_mem _ hname)
    · exact .inr (ih h hname)

/-- An object with plain names at every depth has a query, if its lists hold elements only. -/
theorem encodable_of_isJson {v : Value} (h : IsJson v) :
    ∀ entries, v = .map entries → (∀ key ∈ entryKeys entries, PlainKey key) →
      (∀ items, Reaches entries (.list items) → ∀ item ∈ items, IsElement item) →
      Encodable entries := by
  induction h with
  | null | bool | int | float | text | list => nofun
  | @object m distinct h ih =>
    rintro _ ⟨⟩ plain elements
    apply encodable_members distinct plain
    -- The names and the lists of an object inside are among those of the whole.
    intro e he
    have member : (.text e.1, e.2) ∈ members m := List.mem_map_of_mem he
    by_cases nested : ∃ inner, e.2 = .map inner
    · obtain ⟨inner, same⟩ := nested
      refine .inr ⟨inner, same, ih e he inner same ?_ ?_⟩
      · intro key hkey
        apply plain key
        apply keysWithin_subset member
        rwa [same]
      · intro items reached
        rw [same] at member
        exact elements items (.nested member reached)
    · refine .inl (isLeaf_of_isJson (h e he) (not_exists.mp nested) ?_)
      intro items same
      rw [same] at member
      exact elements items (.item member)

/-! ## The delimiter -/

/-- A delimiter that may be configured is the one that a command works under. -/
theorem withConfig_eq {a : Invocation}
    (accepted : Delimiter.fault? (some (String.singleton c)) = none)
    (given : a.delimiter = String.singleton c) (next : Config → Report) :
    ∃ config : Config, config.delimiter = some (String.singleton c) ∧
      withConfig a next = next config := by
  refine ⟨⟨some (String.singleton c), a.named, a.encodedSplat, accepted⟩, rfl, ?_⟩
  have single : (String.singleton c).isEmpty = false := by simp
  have configured : configOf a =
      .ok ⟨some (String.singleton c), a.named, a.encodedSplat, accepted⟩ := by
    rw [configOf, given, single, Config.ofFields]
    split
    · rfl
    · rename_i fault refused
      cases accepted.symm.trans refused
  rw [withConfig, configured]

/-! ## Both commands -/

theorem withoutMark_of_mark (rest : String) : withoutMark ("?" ++ rest) = rest := by
  simp [withoutMark]

theorem withoutMark_plain {text : String} (h : text.toList.head? ≠ some '?') :
    withoutMark text = text := by
  unfold withoutMark
  split
  · rename_i found
    simp [found] at h
  · rfl

theorem printed_injective {text other : String} (h : Outcome.printed text = .printed other) :
    text = other := by
  have output : text ++ "\n" = other ++ "\n" := congrArg Outcome.output h
  exact String.append_left_inj "\n" |>.mp output

theorem runDecode_eq {b : Invocation}
    (accepted : Delimiter.fault? (some (String.singleton c)) = none)
    (given : b.delimiter = String.singleton c) (query : String) :
    (runDecode b query).1 = .ok (.printed (Json.printedBlock
      (decode (withoutMark query) (some (String.singleton c))))) := by
  obtain ⟨config, delimiter, run⟩ := withConfig_eq accepted given _
  rw [runDecode, run]
  dsimp only
  rw [delimiter]

/-- Whatever is printed for an object is its query. -/
theorem runEncode_eq_printed_iff {a : Invocation} {data text : String}
    (accepted : Delimiter.fault? (some (String.singleton c)) = none)
    (given : a.delimiter = String.singleton c)
    (object : Json.read data.toList = .ok (.map entries)) :
    (runEncode a data).1 = .ok (.printed text) ↔
      encode (.map entries) "" (some (String.singleton c)) = .ok text := by
  obtain ⟨config, delimiter, run⟩ := withConfig_eq accepted given _
  rw [runEncode, run, object]
  dsimp only
  rw [delimiter]
  constructor
  · intro printed
    split at printed
    · rename_i written
      rw [written, printed_injective (Except.ok.inj printed)]
    · cases congrArg Outcome.exitCode (Except.ok.inj printed)
  · intro written
    rw [written]

/-- An object with plain names whose lists hold elements only is printed. -/
theorem exists_printed {a : Invocation} {data : String}
    (accepted : Delimiter.fault? (some (String.singleton c)) = none)
    (noDigit : Percent.isEscapeDigit c = false) (given : a.delimiter = String.singleton c)
    (object : Json.read data.toList = .ok (.map entries))
    (plain : ∀ key ∈ entryKeys entries, PlainKey key)
    (elements : ∀ items, Reaches entries (.list items) → ∀ item ∈ items, IsElement item) :
    ∃ text, (runEncode a data).1 = .ok (.printed text) := by
  have hmark := isMark_of_accepted accepted noDigit
  have encodable := encodable_of_isJson (Json.isJson_read object) entries rfl plain elements
  obtain ⟨text, written, -⟩ := decode_encode_folded hmark encodable
  exact ⟨text, (runEncode_eq_printed_iff accepted given object).mpr written⟩

/-- For an object with plain names whose lists hold elements only, let a query be printed under a
delimiter that may be configured and is no digit of an escape. Reading this query under the same
delimiter prints the normal form of the object, unless the query begins with a question mark. That
is taken for the mark in front of a query, so the first name loses it. -/
theorem runDecode_printed {a b : Invocation} {data text : String}
    (accepted : Delimiter.fault? (some (String.singleton c)) = none)
    (noDigit : Percent.isEscapeDigit c = false)
    (given : a.delimiter = String.singleton c) (same : b.delimiter = String.singleton c)
    (object : Json.read data.toList = .ok (.map entries))
    (plain : ∀ key ∈ entryKeys entries, PlainKey key)
    (elements : ∀ items, Reaches entries (.list items) → ∀ item ∈ items, IsElement item)
    (printed : (runEncode a data).1 = .ok (.printed text)) :
    (text.toList.head? ≠ some '?' →
        (runDecode b text).1 =
          .ok (.printed (Json.printedBlock (normalEntries foldedLeaf entries)))) ∧
      ∀ rest, text = "?" ++ rest →
        ∃ name path raw others, pairs text = ⟨("?" ++ name) :: path, raw⟩ :: others ∧
          (runDecode b text).1 = .ok (.printed (Json.printedBlock
            (blockOf (some (String.singleton c)) (⟨name :: path, raw⟩ :: others)))) := by
  have hmark := isMark_of_accepted accepted noDigit
  have encodable := encodable_of_isJson (Json.isJson_read object) entries rfl plain elements
  have written := (runEncode_eq_printed_iff accepted given object).mp printed
  rw [runDecode_eq accepted same]
  constructor
  · intro noMark
    obtain ⟨other, written', read⟩ := decode_encode_folded hmark encodable
    obtain rfl : text = other := Except.ok.inj (written.symm.trans written')
    rw [withoutMark_plain noMark, read]
  · rintro rest rfl
    obtain ⟨name, path, raw, others, row, behind⟩ := pairs_behind_mark hmark plain written
    refine ⟨name, path, raw, others, row, ?_⟩
    rw [withoutMark_of_mark, decode, behind]

/-- An object with a list, of which an empty text is dropped, and an object inside. -/
theorem runDecode_printed_of_nested :
    let a : Invocation := { missing := [] }
    let data := "\x7b\"a\": [\"x\", \"\"], \"b\": \x7b\"c\": \"d\"\x7d\x7d"
    let entries : List (Value × Value) :=
      [(.text "a", .list [.text "x", .text ""]), (.text "b", .map [(.text "c", .text "d")])]
    (Delimiter.fault? (some a.delimiter) = none ∧ Percent.isEscapeDigit '|' = false ∧
      Json.read data.toList = .ok (.map entries) ∧ (∀ key ∈ entryKeys entries, PlainKey key) ∧
      (∀ items, Reaches entries (.list items) → ∀ item ∈ items, IsElement item) ∧
      (runEncode a data).1 = .ok (.printed "a=|x|&b.c=d")) ∧
    (runDecode a "a=|x|&b.c=d").1 =
      .ok (.printed "\x7b\"a\": [\"x\"], \"b\": \x7b\"c\": \"d\"\x7d\x7d") := by
  intro a data entries
  have object : Json.read data.toList = .ok (.map entries) := by cbv
  have plain : ∀ key ∈ entryKeys entries, PlainKey key := by decide
  have elements : ∀ items, Reaches entries (.list items) → ∀ item ∈ items, IsElement item := by
    intro items reached
    simp [entries, Reaches.cons_iff, Reaches.not_nil] at reached
    subst reached
    exact List.forall_mem_cons.mpr ⟨.inr rfl, List.forall_mem_singleton.mpr (.inr rfl)⟩
  have written : encode (.map entries) "" (some (String.singleton '|')) = .ok "a=|x|&b.c=d" := by
    decide +kernel
  have printed : (runEncode a data).1 = .ok (.printed "a=|x|&b.c=d") :=
    (runEncode_eq_printed_iff (by decide) rfl object).mpr written
  have normal : Json.printedBlock (normalEntries foldedLeaf entries) =
      "\x7b\"a\": [\"x\"], \"b\": \x7b\"c\": \"d\"\x7d\x7d" := by
    decide +kernel
  obtain ⟨read, -⟩ := runDecode_printed (a := a) (b := a) (c := '|')
    (by decide) (by decide) rfl rfl object plain elements printed
  rw [normal] at read
  exact ⟨⟨by decide, by decide, object, plain, elements, printed⟩, read (by decide)⟩

/-- A first name that begins with a question mark comes back without it. -/
theorem first_name_loses_mark :
    let a : Invocation := { missing := [] }
    let data := "\x7b\"?a\": \"x\"\x7d"
    let entries : List (Value × Value) := [(.text "?a", .text "x")]
    (Json.read data.toList = .ok (.map entries) ∧ (∀ key ∈ entryKeys entries, PlainKey key) ∧
      ∀ v, Reaches entries v → IsElement v) ∧
    (runEncode a data).1 = .ok (.printed "?a=x") ∧
    (runDecode a "?a=x").1 = .ok (.printed "\x7b\"a\": \"x\"\x7d") ∧
    Json.printedBlock (normalEntries foldedLeaf entries) = data := by
  intro a data entries
  have object : Json.read data.toList = .ok (.map entries) := by cbv
  have elements : ∀ v, Reaches entries v → IsElement v := by
    intro v reached
    simp [entries, Reaches.cons_iff, Reaches.not_nil] at reached
    exact .inr (reached ▸ rfl)
  refine ⟨⟨object, by decide, elements⟩, ?_, ?_, ?_⟩ <;> decide +kernel

end FragmentRouting.CommandLine
