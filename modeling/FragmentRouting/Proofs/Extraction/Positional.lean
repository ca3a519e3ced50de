import FragmentRouting.Proofs.Extraction.Arguments
import FragmentRouting.Proofs.Template.Splats
import FragmentRouting.Proofs.Template.Suffix

/-!
# Positional arguments

Unless its names are collected in a block, a pattern gives an argument for each of them, and a block
for the query behind them:

* `keepsRaw_ofTemplate`: which captures stay percent-encoded, told by the names alone;
* `argumentsFor_positional`: the arguments of every fragment, name by name;
* `argumentsFor_append`: a query behind a path adds one block to the arguments of the path.
-/

namespace FragmentRouting.Pattern

open Template (Captures Slot Token captureGroups namedMarks splatFirst withQuery)

variable {template : String} {named : Option Bool} {config : Config}

/-! ## Raw captures -/

/-- Whether the capture of a name stays percent-encoded: that of a splat does, and every one does
where the first name is that of a splat. -/
def staysRaw (encodedSplats : Bool) (marks : List Token) (mark : Token) : Bool :=
  encodedSplats && (mark.isSplat || splatFirst marks)

/-- The argument for a capture, if it is present. -/
def slotArgument (raw : Bool) (slot : Slot) : Option Parameter :=
  slot.map fun text => .text (if raw then text else Percent.decode text)

theorem hasSplat_of_leadsWithSplat {p : Pattern} (h : p.leadsWithSplat = true) :
    p.hasSplat = true := by
  obtain ⟨offset, hoffset, -⟩ := (Option.any_eq_true _ _).mp h
  exact Option.isSome_iff_exists.mpr ⟨offset, hoffset⟩

theorem mem_splatSlots_ofTemplate_iff {i : Nat} {mark : Token}
    (h : (namedMarks template.toList)[i]? = some mark) :
    i ∈ (ofTemplate template named config).splatSlots ↔ mark.isSplat = true := by
  rw [Template.mem_splatSlots_iff, Template.namedTokens_ofTemplate, h]
  cases mark <;> simp [Token.isSplat]

/-- The positions of the splats and the offset of the first one tell of every name what the names
tell themselves. -/
theorem keepsRaw_ofTemplate {i : Nat} {mark : Token}
    (h : (namedMarks template.toList)[i]? = some mark) :
    (ofTemplate template named config).keepsRaw i =
      staysRaw config.encodedSplats (namedMarks template.toList) mark := by
  have splat : (ofTemplate template named config).splatSlots.contains i = mark.isSplat := by
    rw [Bool.eq_iff_iff, List.contains_iff_mem, mem_splatSlots_ofTemplate_iff h]
  have found : (mark.isSplat || splatFirst (namedMarks template.toList)) = true →
      (ofTemplate template named config).hasSplat = true := by
    rw [Bool.or_eq_true, ← leadsWithSplat_ofTemplate template named config]
    rintro (own | first)
    · exact hasSplat_of_mem_splatSlots ((mem_splatSlots_ofTemplate_iff h).mpr own)
    · exact hasSplat_of_leadsWithSplat first
  rw [keepsRaw, splat, leadsWithSplat_ofTemplate, staysRaw, Bool.and_assoc,
    Bool.or_comm (splatFirst _)]
  congr 1
  exact Bool.and_eq_right_iff_imp.mpr found

theorem slotTexts_ofTemplate {slots : List Slot}
    (h : slots.length = (namedMarks template.toList).length) :
    ((ofTemplate template named config).slotTexts slots).map (Option.map Parameter.text) =
      List.zipWith
        (fun mark =>
          slotArgument (staysRaw config.encodedSplats (namedMarks template.toList) mark))
        (namedMarks template.toList) slots := by
  apply List.ext_getElem
  · simp [slotTexts, h]
  · intro i inTexts inZip
    have inMarks : i < (namedMarks template.toList).length := by
      rw [List.length_zipWith] at inZip
      omega
    have raw := @keepsRaw_ofTemplate template named config i _ (List.getElem?_eq_getElem inMarks)
    simp [slotTexts, slotArgument, raw, Function.comp_def]

/-! ## The arguments of a fragment -/

theorem argumentsFor_eq_error_iff {p : Pattern} {fragment : String} {failure : Failure} :
    p.argumentsFor fragment = .error failure ↔
      p.isMatch fragment = false ∧ failure = .mismatch p.template fragment := by
  unfold argumentsFor isMatch
  cases p.captures? fragment with
  | none => simp [eq_comm]
  | some captures => simp

theorem argumentsOf_positional {p : Pattern} (positional : p.named = false) (captures : Captures) :
    p.argumentsOf captures =
      (p.slotTexts captures.slots).map (Option.map .text) ++
        (captures.query.map fun query => some (.block (p.queryBlock query))).toList := by
  simp [argumentsOf, positional, Function.comp_def]

/-- A fragment is refused exactly if it is not matched. Otherwise every name has an argument, in the
order of the names: nothing where its group took no part in the match, and else the capture, raw or
decoded. The block of the query stands behind them if there is a query. -/
theorem argumentsFor_positional (template : String) {named : Option Bool} {config : Config}
    (positional : named.getD config.named = false) (fragment : String) :
    let p := ofTemplate template named config
    let marks := namedMarks template.toList
    (∀ failure, p.argumentsFor fragment = .error failure ↔
        p.isMatch fragment = false ∧ failure = .mismatch template fragment) ∧
      ∀ captures, p.captures? fragment = some captures →
        captureGroups .plain p.regex.toList = marks.map Token.group ++ ["\\?.*"] ∧
        captures.slots.length = marks.length ∧
        p.argumentsFor fragment = .ok
          (List.zipWith (fun mark => slotArgument (staysRaw config.encodedSplats marks mark))
              marks captures.slots ++
            (captures.query.map fun query => some (.block
              (Query.decode (String.ofList (query.toList.drop 1)) config.delimiter))).toList) := by
  intro p marks
  refine ⟨fun failure => argumentsFor_eq_error_iff, ?_⟩
  intro captures hcaptures
  obtain ⟨items, hitems, hmatch⟩ := Option.bind_eq_some_iff.mp hcaptures
  have compiled : Template.items? template = some items := p.compiled.symm.trans hitems
  have count : captures.slots.length = marks.length :=
    (Template.length_slots_match? hmatch).trans (Template.slotsOf_items compiled)
  refine ⟨?_, count, ?_⟩
  · rw [regex, hitems]
    exact Template.captureGroups_regexOf compiled
  · rw [argumentsFor, hcaptures]
    exact congrArg Except.ok
      ((argumentsOf_positional positional captures).trans
        (congrArg (· ++ _) (slotTexts_ofTemplate count)))

/-- The block of a single pair with a plain name and a single text. -/
theorem decode_of_pair {query name raw : String} {delimiter : Delimiter}
    (row : Query.pairs query = [⟨[name], raw⟩]) (single : delimiter.items? raw = none) :
    Query.decode query delimiter = [(name, .text (Percent.decode raw))] := by
  simp [Query.decode, Query.blockOf, row, Query.addPair, Query.absorb, single, Block.update,
    Entries.item?, Entries.put]

/-- A segment that is decoded, a splat that stays raw behind it, a group without a match, and a query
that is decoded all the same. -/
theorem argumentsFor_positional_of_mixed :
    let config := { Config.standard with encodedSplats := true }
    let p := ofTemplate ":id/*rest(!:page)" none config
    (none : Option Bool).getD config.named = false ∧
      p.argumentsFor "a%20b/c%20d?q=%20" =
        .ok [some (.text "a b"), some (.text "c%20d"), none, some (.block [("q", .text " ")])] ∧
      p.argumentsFor "a" = .error (.mismatch ":id/*rest(!:page)" "a") := by
  intro config p
  have main := @argumentsFor_positional ":id/*rest(!:page)" none config rfl
  have marks : namedMarks ":id/*rest(!:page)".toList =
      [.segment "id", .splat "rest", .segment "page"] := by decide +kernel
  have captured : p.captures? "a%20b/c%20d?q=%20" =
      some ⟨[some "a%20b", some "c%20d", none], some "?q=%20"⟩ := by decide +kernel
  have decoded : Percent.decode "a%20b" = "a b" := by decide +kernel
  have query : Query.pairs "q=%20" = [⟨["q"], "%20"⟩] ∧
      Delimiter.items? (some "|") "%20" = none ∧ Percent.decode "%20" = " " := by decide +kernel
  have block : Query.decode "q=%20" = [("q", .text " ")] :=
    (decode_of_pair query.1 query.2.1).trans (by rw [query.2.2])
  have refused : p.isMatch "a" = false := by decide +kernel
  refine ⟨rfl, ?_, ((main "a").1 _).mpr ⟨refused, rfl⟩⟩
  rw [((main _).2 _ captured).2.2, marks]
  simpa [slotArgument, staysRaw, Token.isSplat, splatFirst, decoded, config, Config.standard]
    using block

/-! ## A query behind a path -/

theorem isSome_withQuery_iff {captures? : Option Captures} {query : List Char} :
    (captures?.bind (withQuery query)).isSome = true ↔
      captures?.isSome = true ∧ '\n' ∉ query := by
  cases captures? with
  | none => simp
  | some captures => by_cases line : '\n' ∈ query <;> simp [withQuery, line]

/-- A query behind a path is matched wherever the path is, unless it has a second line. It adds its
block to the arguments of the path and changes none of them. -/
theorem argumentsFor_append {template : String} {named : Option Bool} {config : Config}
    (positional : named.getD config.named = false) (noMark : '?' ∉ template.toList)
    {path : String} (noQuery : '?' ∉ path.toList) (query : String) :
    let p := ofTemplate template named config
    (p.isMatch (path ++ "?" ++ query) = true ↔ p.isMatch path = true ∧ '\n' ∉ query.toList) ∧
      (p.isMatch (path ++ "?" ++ query) = true →
        ∃ arguments, p.argumentsFor path = .ok arguments ∧
          p.argumentsFor (path ++ "?" ++ query) =
            .ok (arguments ++ [some (.block (Query.decode query p.delimiter))])) := by
  intro p
  have behind : p.captures? (path ++ "?" ++ query) =
      (p.captures? path).bind (withQuery query.toList) := captures?_append noMark noQuery query
  have matched : p.isMatch (path ++ "?" ++ query) = true ↔
      p.isMatch path = true ∧ '\n' ∉ query.toList := by
    rw [isMatch, isMatch, behind]
    exact isSome_withQuery_iff
  refine ⟨matched, ?_⟩
  intro h
  obtain ⟨hpath, oneLine⟩ := matched.mp h
  obtain ⟨⟨slots, none_query⟩, hcaptures⟩ := Option.isSome_iff_exists.mp hpath
  obtain rfl : none_query = none := captures?_query noQuery hcaptures
  have joined : p.captures? (path ++ "?" ++ query) =
      some ⟨slots, some (String.ofList ('?' :: query.toList))⟩ := by
    rw [behind, hcaptures, Option.bind_some, withQuery, if_neg oneLine]
  have positional : p.named = false := positional
  have joins := p.argumentsOf_joins slots (String.ofList ('?' :: query.toList))
  rw [Joins, positional] at joins
  refine ⟨p.argumentsOf ⟨slots, none⟩, by rw [argumentsFor, hcaptures], ?_⟩
  rw [argumentsFor, joined]
  simpa [queryBlock] using joins

/-- Asterisks that repeat a character, an optional group and an empty splat; the question mark in the
query is part of a value. -/
theorem argumentsFor_append_of_repeated :
    let p := ofTemplate "(:a/*/)(*rest)b*:" none .standard
    ((none : Option Bool).getD Config.standard.named = false ∧
        '?' ∉ "(:a/*/)(*rest)b*:".toList ∧ '?' ∉ "x%20//bb:".toList) ∧
      p.argumentsFor "x%20//bb:" = .ok [some (.text "x "), some (.text "")] ∧
      p.argumentsFor "x%20//bb:?k=1?" =
        .ok [some (.text "x "), some (.text ""), some (.block [("k", .text "1?")])] := by
  intro p
  have main := @argumentsFor_append "(:a/*/)(*rest)b*:" none .standard rfl (by decide) "x%20//bb:"
    (by decide)
  have matched : p.isMatch ("x%20//bb:" ++ "?" ++ "k=1?") = true := by decide +kernel
  have captured : p.captures? "x%20//bb:" = some ⟨[some "x%20", some ""], none⟩ := by
    decide +kernel
  have decoded : Percent.decode "x%20" = "x " ∧ Percent.decode "" = "" := by decide +kernel
  have path : p.argumentsFor "x%20//bb:" = .ok [some (.text "x "), some (.text "")] := by
    have positional : p.named = false := rfl
    have decodes (slot : Nat) : p.keepsRaw slot = false := rfl
    simp [argumentsFor, captured, argumentsOf_positional positional, slotTexts, decodes, decoded]
  have query : Query.pairs "k=1?" = [⟨["k"], "1?"⟩] ∧
      Delimiter.items? (some "|") "1?" = none ∧ Percent.decode "1?" = "1?" := by decide +kernel
  have block : Query.decode "k=1?" p.delimiter = [("k", .text "1?")] :=
    (decode_of_pair query.1 query.2.1).trans (by rw [query.2.2])
  obtain ⟨arguments, old, new⟩ := (main "k=1?").2 matched
  obtain rfl := Except.ok.inj (path.symm.trans old)
  rw [block] at new
  exact ⟨⟨rfl, by decide, by decide⟩, path, new⟩

end FragmentRouting.Pattern
