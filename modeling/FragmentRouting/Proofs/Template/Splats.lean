import FragmentRouting.Proofs.Template.Places

/-!
# The first splat

Where the first splat and the first segment stand is found in the characters of a template, one by
one, and which names are those of splats in its tokens. Both tell the same:

* `splatOffset?_eq_none_iff`: there is a first splat exactly if any name is that of a splat;
* `leadsWithSplat_ofTemplate`: a splat stands before every segment exactly if the first name is that
  of a splat;
* `splatOffset?_of_places`: the offset of the first splat and the positions of the splats, told by
  the tokens alone.
-/

namespace FragmentRouting.Template

/-- Whether the first name is that of a splat. -/
def splatFirst (marks : List Token) : Bool :=
  marks.head?.any Token.isSplat

/-- The first splat stands before the first segment exactly if its name is the first. -/
theorem firstNamed?_lt_iff {text : List Char} :
    (∃ i, firstNamed? '*' text = some i ∧ ∀ j, firstNamed? ':' text = some j → i < j) ↔
      splatFirst (namedMarks text) = true := by
  induction text with
  | nil => simp [firstNamed?, namedMarks, splatFirst]
  | cons c rest ih =>
    simp only [firstNamed?_cons, namedMarks]
    by_cases segment : c = ':' ∧ startsWord rest = true
    · simp [segment, splatFirst, Token.isSplat]
    · by_cases splat : c = '*' ∧ startsWord rest = true
      · simp [splat, splatFirst, Token.isSplat]
      · rw [if_neg splat, if_neg segment, if_neg segment, if_neg splat, ← ih]
        simp

end FragmentRouting.Template

namespace FragmentRouting.Pattern

open Template (Token firstNamed? firstPlace? namedMarks namedPlaces splatFirst)

/-- A splat stands before every segment exactly if the first name is that of a splat. -/
theorem leadsWithSplat_ofTemplate (template : String) (named : Option Bool) (config : Config) :
    (ofTemplate template named config).leadsWithSplat =
      splatFirst (namedMarks template.toList) := by
  rw [Bool.eq_iff_iff, ← Template.firstNamed?_lt_iff]
  simp only [leadsWithSplat, splatOffset?, ofTemplate]
  cases firstNamed? '*' template.toList with
  | none => simp
  | some i =>
    cases firstNamed? ':' template.toList with
    | none => simp
    | some j =>
      have before : (i : Int) - j < 0 ↔ i < j := by omega
      simp [before]

/-! ## Positions of the splats -/

theorem splatSlots_eq_nil_iff {p : Pattern} :
    p.splatSlots = [] ↔ ∀ t ∈ p.namedTokens, t.isSplat = false := by
  constructor
  · intro h t ht
    obtain ⟨i, hi⟩ := List.mem_iff_getElem?.mp ht
    cases t with
    | splat name =>
      have found := Template.mem_splatSlots_iff.mpr ⟨name, hi⟩
      rw [h] at found
      cases found
    | _ => rfl
  · intro h
    apply List.eq_nil_iff_forall_not_mem.mpr
    intro i hi
    obtain ⟨name, hname⟩ := Template.mem_splatSlots_iff.mp hi
    cases h _ (List.mem_of_getElem? hname)

theorem zero_mem_splatSlots_iff {p : Pattern} :
    0 ∈ p.splatSlots ↔ splatFirst p.namedTokens = true := by
  rw [Template.mem_splatSlots_iff, ← List.head?_eq_getElem?, splatFirst]
  cases p.namedTokens.head? with
  | none => simp
  | some t => cases t <;> simp [Token.isSplat]

theorem lt_of_mem_splatSlots {p : Pattern} {i : Nat} (h : i ∈ p.splatSlots) :
    i < p.names.length := by
  obtain ⟨name, hname⟩ := Template.mem_splatSlots_iff.mp h
  obtain ⟨inTokens, -⟩ := List.getElem?_eq_some_iff.mp hname
  rw [Template.length_names]
  exact inTokens

theorem pairwise_splatSlots (p : Pattern) : p.splatSlots.Pairwise (· < ·) := by
  have all : (p.namedTokens.zipIdx.map Prod.snd).Pairwise (· < ·) := by
    rw [List.zipIdx_map_snd]
    exact List.pairwise_lt_range'
  exact all.sublist (List.filter_sublist.map Prod.snd)

/-! ## The offset of the first splat -/

variable {template : String} {named : Option Bool} {config : Config}

/-- The offset of the first splat, told by the places of the tokens. -/
theorem splatOffset?_ofTemplate :
    (ofTemplate template named config).splatOffset? =
      (firstPlace? '*' (namedPlaces template)).map fun splat : Nat =>
        match firstPlace? ':' (namedPlaces template) with
        | some segment => (splat : Int) - segment
        | none => -1 := by
  rw [← Template.firstNamed?_eq_firstPlace? (.inl rfl),
    ← Template.firstNamed?_eq_firstPlace? (.inr rfl)]
  simp only [splatOffset?, ofTemplate]
  cases firstNamed? '*' template.toList <;> rfl

/-- There is a first splat exactly if any name is that of a splat. -/
theorem splatOffset?_eq_none_iff :
    (ofTemplate template named config).splatOffset? = none ↔
      (ofTemplate template named config).splatSlots = [] := by
  rw [splatOffset?_ofTemplate, Option.map_eq_none_iff, Template.firstPlace?_eq_none_iff,
    Template.map_fst_namedPlaces, splatSlots_eq_nil_iff, Template.namedTokens_ofTemplate]
  simp only [ne_eq, Template.mark?_eq_star_iff, Bool.not_eq_true]

theorem hasSplat_of_mem_splatSlots {i : Nat}
    (h : i ∈ (ofTemplate template named config).splatSlots) :
    (ofTemplate template named config).hasSplat = true := by
  rw [hasSplat, Option.isSome_iff_ne_none, ne_eq, splatOffset?_eq_none_iff]
  exact List.ne_nil_of_mem h

theorem splatOffset?_neg_iff :
    (∃ offset, (ofTemplate template named config).splatOffset? = some offset ∧ offset < 0) ↔
      0 ∈ (ofTemplate template named config).splatSlots := by
  rw [zero_mem_splatSlots_iff, Template.namedTokens_ofTemplate,
    ← leadsWithSplat_ofTemplate template named config, leadsWithSplat, Option.any_eq_true]
  simp only [decide_eq_true_eq]

/-- No splat stands where a segment does, as each begins with its own mark. -/
theorem splatOffset?_ne_zero : (ofTemplate template named config).splatOffset? ≠ some 0 := by
  rw [splatOffset?_ofTemplate]
  intro h
  obtain ⟨i, hi, offset⟩ := Option.map_eq_some_iff.mp h
  cases hj : firstPlace? ':' (namedPlaces template) with
  | none =>
    rw [hj] at offset
    cases offset
  | some j =>
    rw [hj] at offset
    have same : i = j := Int.ofNat.inj (Int.sub_eq_zero.mp offset)
    have splat := Template.getElem?_of_firstPlace? hi
    have segment := Template.getElem?_of_firstPlace? hj
    rw [same, segment] at splat
    cases splat

/-- What is told of the splats of a template is told of one row of tokens, each of which stands at
its place, whether or not the template has items. There is an offset of the first splat exactly if
there are positions of splats. It is negative exactly if the first token is a splat. With both kinds
of token it is the distance of the first splat from the first segment, which is never zero, and with
splats only it is `-1`. The positions are among those of the names and ascend. -/
theorem splatOffset?_of_places (template : String) (named : Option Bool) (config : Config) :
    let p := ofTemplate template named config
    let places := namedPlaces template
    places.map Prod.fst = p.namedTokens ∧
      (∀ place ∈ places, place.1.spelling <+: template.toList.drop place.2) ∧
      (p.splatOffset? = none ↔ p.splatSlots = []) ∧
      ((∃ offset, p.splatOffset? = some offset ∧ offset < 0) ↔ 0 ∈ p.splatSlots) ∧
      (0 ∈ p.splatSlots ↔ ∃ name i, places.head? = some (.splat name, i)) ∧
      (∀ i j, firstPlace? '*' places = some i → firstPlace? ':' places = some j →
        p.splatOffset? = some ((i : Int) - j)) ∧
      p.splatOffset? ≠ some 0 ∧
      (∀ i, firstPlace? '*' places = some i → firstPlace? ':' places = none →
        p.splatOffset? = some (-1)) ∧
      (∀ slot ∈ p.splatSlots, slot < p.names.length) ∧
      p.splatSlots.Pairwise (· < ·) := by
  intro p places
  have tokens : places.map Prod.fst = p.namedTokens :=
    (Template.map_fst_namedPlaces template).trans
      (Template.namedTokens_ofTemplate template named config).symm
  have offset : p.splatOffset? = (firstPlace? '*' places).map fun splat : Nat =>
      match firstPlace? ':' places with
      | some segment => (splat : Int) - segment
      | none => -1 := splatOffset?_ofTemplate
  refine ⟨tokens, ?_, splatOffset?_eq_none_iff, splatOffset?_neg_iff, ?_, ?_,
    splatOffset?_ne_zero, ?_, fun slot => lt_of_mem_splatSlots, pairwise_splatSlots p⟩
  · intro place hplace
    exact Template.spelling_prefix_of_mem (List.mem_of_mem_filter hplace)
  · rw [zero_mem_splatSlots_iff, ← tokens, splatFirst, List.head?_map]
    cases places.head? with
    | none => simp
    | some place =>
      obtain ⟨t, i⟩ := place
      cases t <;> simp [Token.isSplat]
  · intro i j splat segment
    rw [offset, splat, segment]
    rfl
  · intro i splat segment
    rw [offset, splat, segment]
    rfl

/-- A template with both kinds of token, but with parentheses that have no partners, so that it has
no items. -/
theorem splatOffset?_of_places_unbalanced :
    let p := ofTemplate ")*é(::n*x" none .standard
    p.items.isSome = false ∧
      namedPlaces ")*é(::n*x" = [(.splat "é", 1), (.segment "n", 5), (.splat "x", 7)] ∧
      p.splatOffset? = some (-4) ∧ 0 ∈ p.splatSlots := by
  intro p
  have main := splatOffset?_of_places ")*é(::n*x" none .standard
  have places : namedPlaces ")*é(::n*x" =
      [(.splat "é", 1), (.segment "n", 5), (.splat "x", 7)] := by decide +kernel
  obtain ⟨-, -, -, -, first, both, -⟩ := main
  refine ⟨by decide +kernel, places, both 1 5 ?_ ?_, first.mpr ⟨"é", 1, ?_⟩⟩
  · rw [places]
    rfl
  · rw [places]
    rfl
  · rw [places]
    rfl

end FragmentRouting.Pattern
