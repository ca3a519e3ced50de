import FragmentRouting.Proofs.Template.Meaning

/-!
# The items that a template spells

The items of a well-formed template, told from its characters, and that compiling finds exactly
these:

* `Spells text items`: one rule for each kind of item, with a group for each pair of parentheses;
* `wellFormed_iff_spells`: the well-formed texts are those that spell items;
* `Spells.items?_eq`: a text that spells items is compiled to them.
-/

namespace FragmentRouting.Template

open Text (isWord)

inductive Spells : List Char → List Item → Prop
  | nil : Spells [] []
  | literal {c : Char} {rest : List Char} {items : List Item} (plain : IsLiteral c rest)
      (h : Spells rest items) : Spells (c :: rest) (.once (.char c) :: items)
  | segment {rest : List Char} {items : List Item} (named : startsWord rest = true)
      (h : Spells (rest.dropWhile isWord) items) : Spells (':' :: rest) (.once .segment :: items)
  | splat {rest : List Char} {items : List Item} (named : startsWord rest = true)
      (h : Spells (rest.dropWhile isWord) items) : Spells ('*' :: rest) (.once .splat :: items)
  | group {body rest : List Char} {inner items : List Item} (hbody : Spells body inner)
      (h : Spells rest items) : Spells ('(' :: (body ++ ')' :: rest)) (.optional inner :: items)

/-! ## Well-formed texts -/

theorem Begins.starsNamed_eq {text rest : List Char} {a : Atom} (h : Begins text a rest) :
    starsNamed text = starsNamed rest := by
  cases h with
  | char plain =>
    obtain ⟨-, -, star, -⟩ := plain
    simp [starsNamed, star]
  | segment _ => simp [starsNamed, starsNamed_dropWhile]
  | splat named => simp [starsNamed, starsNamed_dropWhile, named]

theorem Begins.wellFormed_iff {text rest : List Char} {a : Atom} (h : Begins text a rest) :
    WellFormed text ↔ WellFormed rest := by
  constructor
  · intro wf
    exact ⟨h.balanced_iff.mp wf.balanced, h.starsNamed_eq ▸ wf.named⟩
  · intro wf
    exact ⟨h.balanced_iff.mpr wf.balanced, h.starsNamed_eq ▸ wf.named⟩

theorem Spells.wellFormed {text : List Char} {items : List Item} (h : Spells text items) :
    WellFormed text := by
  induction h with
  | nil => exact ⟨rfl, rfl⟩
  | literal plain _ ih => exact (Begins.char plain).wellFormed_iff.mpr ih
  | segment named _ ih => exact (Begins.segment named).wellFormed_iff.mpr ih
  | splat named _ ih => exact (Begins.splat named).wellFormed_iff.mpr ih
  | group _ _ ih ih' => exact (WellFormed.group_iff ih.balanced ih'.balanced).mpr ⟨ih, ih'⟩

theorem starsRepeat_of_starsNamed {text : List Char} (h : starsNamed text = true)
    (before : Bool) : starsRepeat before text = true := by
  induction text generalizing before with
  | nil => rfl
  | cons c rest ih =>
    obtain ⟨here, behind⟩ := Bool.and_eq_true_iff.mp h
    rw [starsRepeat, here, ih behind]
    rfl

theorem WellFormed.meaningful {text : List Char} (h : WellFormed text) : Meaningful text :=
  meaningful_iff.mpr ⟨h.balanced, starsRepeat_of_starsNamed h.named false⟩

/-- Where every asterisk has a name, nothing is repeated. -/
theorem Means.spells {text : List Char} {items : List Item} (h : Means text items)
    (wf : WellFormed text) : Spells text items := by
  induction h with
  | nil => exact .nil
  | once front _ ih =>
    have behind := ih (front.wellFormed_iff.mp wf)
    cases front with
    | char plain => exact .literal plain behind
    | segment named => exact .segment named behind
    | splat named => exact .splat named behind
  | many front unnamed _ _ =>
    have named := (front.wellFormed_iff.mp wf).named
    simp [starsNamed, unnamed] at named
  | @group body rest _ _ hbody h ih ih' =>
    obtain ⟨mbody, mrest⟩ := (WellFormed.group_iff hbody.meaningful.balanced
      h.meaningful.balanced).mp wf
    exact .group (ih mbody) (ih' mrest)

/-- The well-formed texts are those that spell items. -/
theorem wellFormed_iff_spells {text : List Char} : WellFormed text ↔ ∃ items, Spells text items := by
  constructor
  · intro h
    obtain ⟨items, hitems⟩ := meaningful_iff_means.mp h.meaningful
    exact ⟨items, hitems.spells h⟩
  · rintro ⟨items, h⟩
    exact h.wellFormed

/-! ## Compiled items -/

theorem Spells.means {text : List Char} {items : List Item} (h : Spells text items) :
    Means text items := by
  induction h with
  | nil => exact .nil
  | literal plain _ ih => exact .once (.char plain) ih
  | segment named _ ih => exact .once (.segment named) ih
  | splat named _ ih => exact .once (.splat named) ih
  | group _ _ ih ih' => exact .group ih ih'

/-- A text that spells items is compiled to them. -/
theorem Spells.items?_eq {template : String} {items : List Item}
    (h : Spells template.toList items) : items? template = some items :=
  h.means.items?_eq

theorem Spells.absentSlots_eq {text : List Char} {items : List Item} (h : Spells text items) :
    absentSlots items = emptySlots text :=
  h.means.absentSlots_eq

theorem Spells.unique {text : List Char} {items items' : List Item} (h : Spells text items)
    (h' : Spells text items') : items = items' :=
  h.means.unique h'.means

end FragmentRouting.Template
