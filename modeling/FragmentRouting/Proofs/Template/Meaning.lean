import Mathlib.Data.List.TakeWhile
import FragmentRouting.Template.Item
import FragmentRouting.Proofs.Template.Reading

/-!
# The meaning of a template

A template is compiled to items, unless it has no meaning. Both are told here from its characters:

* `Meaningful`: the parentheses are balanced, and every asterisk without a name has something to
  repeat;
* `Means text items`: one rule for an atom that is read once, one for an atom that an asterisk
  repeats, and one for a pair of parentheses;
* `meaningful_iff_means`: the meaningful texts are those that mean some items;
* `Means.items?_eq`: a text is compiled to the items that it means.
-/

namespace FragmentRouting.Template

open Text (isWord)

/-! ## Asterisks without a name -/

/-- An asterisk has no name and nothing to repeat: it stands at the start of the text, or right
behind a parenthesis or another asterisk. -/
def IdleStar (text : List Char) : Prop :=
  ∃ before after, text = before ++ '*' :: after ∧ startsWord after = false ∧
    ∀ c, before.getLast? = some c → c = '(' ∨ c = ')' ∨ c = '*'

/-- A text that can be compiled. -/
structure Meaningful (text : List Char) : Prop where
  balanced : Balanced text
  busy : ¬ IdleStar text

/-- Whether an asterisk behind the character repeats something. -/
def isRepeatable (c : Char) : Bool :=
  c ≠ '(' && c ≠ ')' && c ≠ '*'

/-- Whether every asterisk without a name repeats something. The text stands behind something that
can be repeated or not, as `before` says. -/
def starsRepeat : Bool → List Char → Bool
  | _, [] => true
  | before, c :: rest =>
    (c ≠ '*' || startsWord rest || before) && starsRepeat (isRepeatable c) rest

theorem starsRepeat_iff {before : Bool} {text : List Char} :
    starsRepeat before text = true ↔
      ∀ first after, text = first ++ '*' :: after → startsWord after = false →
        (first.getLast?.map isRepeatable).getD before = true := by
  induction text generalizing before with
  | nil => simp [starsRepeat]
  | cons c rest ih =>
    rw [starsRepeat, Bool.and_eq_true, ih]
    constructor
    · rintro ⟨here, behind⟩ first after whole unnamed
      cases first with
      | nil =>
        obtain ⟨rfl, rfl⟩ := List.cons.inj whole
        simpa [unnamed] using here
      | cons d first =>
        obtain ⟨rfl, same⟩ := List.cons.inj whole
        have last := behind first after same unnamed
        cases h : first.getLast? <;> simpa [List.getLast?_cons, h] using last
    · intro h
      constructor
      · by_cases star : c = '*'
        · subst star
          cases named : startsWord rest with
          | true => simp
          | false => simpa using h [] rest rfl named
        · simp [star]
      · intro first after whole unnamed
        have last := h (c :: first) after (congrArg (c :: ·) whole) unnamed
        cases h : first.getLast? <;> simpa [List.getLast?_cons, h] using last

theorem not_idleStar_iff {text : List Char} : ¬ IdleStar text ↔ starsRepeat false text = true := by
  rw [starsRepeat_iff]
  constructor
  · intro busy first after whole unnamed
    by_contra idle
    refine busy ⟨first, after, whole, unnamed, fun c last => ?_⟩
    simpa [last, isRepeatable, -not_or, imp_iff_not_or, or_assoc] using idle
  · rintro repeats ⟨first, after, whole, unnamed, idle⟩
    have last := repeats first after whole unnamed
    cases h : first.getLast? with
    | none => simp [h] at last
    | some c =>
      have parts : c ≠ '(' ∧ c ≠ ')' ∧ c ≠ '*' := by
        simpa [h, isRepeatable, and_assoc] using last
      rcases idle c h with e | e | e
      · exact parts.1 e
      · exact parts.2.1 e
      · exact parts.2.2 e

theorem meaningful_iff {text : List Char} :
    Meaningful text ↔ Balanced text ∧ starsRepeat false text = true :=
  ⟨fun h => ⟨h.balanced, not_idleStar_iff.mp h.busy⟩,
    fun h => ⟨h.1, not_idleStar_iff.mpr h.2⟩⟩

instance (text : List Char) : Decidable (Meaningful text) :=
  decidable_of_iff _ meaningful_iff.symm

theorem not_meaningful_iff {text : List Char} :
    ¬ Meaningful text ↔ ¬ Balanced text ∨ IdleStar text := by
  constructor
  · intro h
    by_contra both
    obtain ⟨balanced, busy⟩ := not_or.mp both
    exact h ⟨not_not.mp balanced, busy⟩
  · rintro (unbalanced | idle) h
    · exact unbalanced h.balanced
    · exact h.busy idle

theorem starsRepeat_of_startsWord {before : Bool} {text : List Char}
    (h : startsWord text = true) : starsRepeat before text = starsRepeat true text := by
  cases text with
  | nil => cases h
  | cons c rest =>
    have star : c ≠ '*' := by
      rintro rfl
      simp [startsWord, not_isWord_star] at h
    simp [starsRepeat, star]

theorem isRepeatable_of_isWord {c : Char} (h : isWord c = true) : isRepeatable c = true := by
  have other {d : Char} (hd : isWord d = false) : c ≠ d := by
    rintro rfl
    rw [h] at hd
    cases hd
  simp [isRepeatable, other not_isWord_opening, other not_isWord_closing, other not_isWord_star]

theorem starsRepeat_dropWhile (text : List Char) :
    starsRepeat true (text.dropWhile isWord) = starsRepeat true text := by
  induction text with
  | nil => rfl
  | cons c rest ih =>
    cases h : isWord c with
    | false => rw [List.dropWhile_cons_of_neg (by simp [h])]
    | true =>
      rw [List.dropWhile_cons_of_pos h, ih, starsRepeat, isRepeatable_of_isWord h]
      simp

theorem starsRepeat_closing (before : Bool) (body after : List Char) :
    starsRepeat before (body ++ ')' :: after) =
      (starsRepeat before body && starsRepeat false after) := by
  induction body generalizing before with
  | nil => simp [starsRepeat, isRepeatable]
  | cons c body ih =>
    simp [starsRepeat, ih, startsWord_append (startsWord_closing after), Bool.and_assoc]

theorem Meaningful.group {body after : List Char} (hbody : Balanced body) (hafter : Balanced after)
    (h : Meaningful ('(' :: (body ++ ')' :: after))) : Meaningful body ∧ Meaningful after := by
  have repeats := (meaningful_iff.mp h).2
  have inside : starsRepeat false body = true ∧ starsRepeat false after = true := by
    simpa [starsRepeat, isRepeatable, starsRepeat_closing] using repeats
  exact ⟨meaningful_iff.mpr ⟨hbody, inside.1⟩, meaningful_iff.mpr ⟨hafter, inside.2⟩⟩

/-! ## The front of a text -/

/-- The atom at the front of a text, and the text behind it. A name goes on to the last word
character in a row. -/
inductive Begins : List Char → Atom → List Char → Prop
  | char {c : Char} {rest : List Char} (plain : IsLiteral c rest) :
      Begins (c :: rest) (.char c) rest
  | segment {rest : List Char} (named : startsWord rest = true) :
      Begins (':' :: rest) .segment (rest.dropWhile isWord)
  | splat {rest : List Char} (named : startsWord rest = true) :
      Begins ('*' :: rest) .splat (rest.dropWhile isWord)

namespace Begins

variable {text rest : List Char} {a : Atom}

theorem length_lt (h : Begins text a rest) : rest.length < text.length := by
  cases h with
  | char _ => exact Nat.lt_succ_self _
  | segment _ => exact Nat.lt_succ_of_le (List.length_dropWhile_le _ _)
  | splat _ => exact Nat.lt_succ_of_le (List.length_dropWhile_le _ _)

theorem balanced_iff (h : Begins text a rest) : Balanced text ↔ Balanced rest := by
  cases h with
  | char plain =>
    obtain ⟨opens, closes, -, -⟩ := plain
    simp [Balanced, depthAfter?, opens, closes]
  | segment _ => simp [Balanced, depthAfter?, depthAfter?_dropWhile]
  | splat _ => simp [Balanced, depthAfter?, depthAfter?_dropWhile]

/-- An asterisk can repeat what stands at the front. -/
theorem starsRepeat_eq (h : Begins text a rest) (before : Bool) :
    starsRepeat before text = starsRepeat true rest := by
  cases h with
  | char plain =>
    obtain ⟨opens, closes, star, -⟩ := plain
    simp [starsRepeat, isRepeatable, opens, closes, star]
  | segment named => simp [starsRepeat, isRepeatable, starsRepeat_dropWhile]
  | splat named =>
    rw [starsRepeat_dropWhile]
    simp [starsRepeat, named, starsRepeat_of_startsWord named]

end Begins

theorem exists_begins {c : Char} {rest : List Char} (opens : c ≠ '(') (closes : c ≠ ')')
    (named : c = '*' → startsWord rest = true) : ∃ a rest', Begins (c :: rest) a rest' := by
  by_cases star : c = '*'
  · subst star
    exact ⟨_, _, .splat (named rfl)⟩
  · by_cases segment : c = ':' ∧ startsWord rest = true
    · obtain ⟨rfl, hname⟩ := segment
      exact ⟨_, _, .segment hname⟩
    · exact ⟨_, _, .char ⟨opens, closes, star, segment⟩⟩

/-! ## Items -/

inductive Means : List Char → List Item → Prop
  | nil : Means [] []
  | once {text rest : List Char} {a : Atom} {items : List Item} (front : Begins text a rest)
      (h : Means rest items) : Means text (.once a :: items)
  | many {text rest : List Char} {a : Atom} {items : List Item}
      (front : Begins text a ('*' :: rest)) (unnamed : startsWord rest = false)
      (h : Means rest items) : Means text (.many a :: items)
  | group {body rest : List Char} {inner items : List Item} (hbody : Means body inner)
      (h : Means rest items) : Means ('(' :: (body ++ ')' :: rest)) (.optional inner :: items)

/-- What stands behind an atom is meaningful by itself, or behind the asterisk that repeats the
atom. -/
theorem meaningful_behind {rest : List Char} (balanced : Balanced rest)
    (repeats : starsRepeat true rest = true) :
    Meaningful rest ∨
      ∃ more, rest = '*' :: more ∧ startsWord more = false ∧ Meaningful more := by
  cases rest with
  | nil => exact .inl (meaningful_iff.mpr ⟨balanced, rfl⟩)
  | cons c more =>
    by_cases stray : c = '*' ∧ startsWord more = false
    · obtain ⟨rfl, unnamed⟩ := stray
      have behind : Balanced more ∧ starsRepeat false more = true :=
        ⟨by simpa [Balanced, depthAfter?] using balanced,
          by simpa [starsRepeat, isRepeatable] using repeats⟩
      exact .inr ⟨more, rfl, unnamed, meaningful_iff.mpr behind⟩
    · have here : c ≠ '*' ∨ startsWord more = true := by
        simpa [imp_iff_not_or] using stray
      refine .inl (meaningful_iff.mpr ⟨balanced, ?_⟩)
      rcases here with star | named
      · simpa [starsRepeat, star] using repeats
      · simpa [starsRepeat, named] using repeats

/-- The induction is on the length, because a name and a group take more than one character. -/
theorem exists_means_of_length_le (bound : Nat) {text : List Char} (short : text.length ≤ bound)
    (h : Meaningful text) : ∃ items, Means text items := by
  induction bound generalizing text with
  | zero =>
    rw [List.length_eq_zero_iff.mp (Nat.le_zero.mp short)]
    exact ⟨[], .nil⟩
  | succ bound ih =>
    cases text with
    | nil => exact ⟨[], .nil⟩
    | cons c rest =>
      by_cases opens : c = '('
      · subst opens
        obtain ⟨body, after, rfl, hbody, hafter⟩ := exists_closing h.balanced
        obtain ⟨mbody, mafter⟩ := Meaningful.group hbody hafter h
        simp only [List.length_cons, List.length_append] at short
        obtain ⟨inner, sbody⟩ := ih (by omega) mbody
        obtain ⟨items, safter⟩ := ih (by omega) mafter
        exact ⟨_, .group sbody safter⟩
      · have closes : c ≠ ')' := by
          rintro rfl
          exact absurd h.balanced (by simp [Balanced, depthAfter?])
        have repeats := (meaningful_iff.mp h).2
        have named : c = '*' → startsWord rest = true := by
          rintro rfl
          by_contra unnamed
          simp [starsRepeat, unnamed] at repeats
        obtain ⟨a, rest', front⟩ := exists_begins opens closes named
        have shorter := front.length_lt
        rw [front.starsRepeat_eq] at repeats
        rcases meaningful_behind (front.balanced_iff.mp h.balanced) repeats with
          hrest | ⟨more, rfl, unnamed, hmore⟩
        · obtain ⟨items, hitems⟩ := ih (by omega) hrest
          exact ⟨_, .once front hitems⟩
        · rw [List.length_cons] at shorter
          obtain ⟨items, hitems⟩ := ih (by omega) hmore
          exact ⟨_, .many front unnamed hitems⟩

theorem starsRepeat_of_false {text : List Char} (h : starsRepeat false text = true) :
    starsRepeat true text = true := by
  cases text with
  | nil => rfl
  | cons c rest =>
    have behind := (Bool.and_eq_true_iff.mp h).2
    simpa [starsRepeat] using behind

theorem Means.meaningful {text : List Char} {items : List Item} (h : Means text items) :
    Meaningful text := by
  rw [meaningful_iff]
  induction h with
  | nil => exact ⟨rfl, rfl⟩
  | once front _ ih =>
    rw [front.starsRepeat_eq]
    exact ⟨front.balanced_iff.mpr ih.1, starsRepeat_of_false ih.2⟩
  | many front unnamed _ ih =>
    rw [front.balanced_iff, front.starsRepeat_eq]
    simpa [Balanced, depthAfter?, starsRepeat, unnamed, isRepeatable] using ih
  | group _ _ ih ih' =>
    refine ⟨balanced_group ih.1 ih'.1, ?_⟩
    simp [starsRepeat, isRepeatable, starsRepeat_closing, ih.2, ih'.2]

/-- The meaningful texts are those that mean some items. -/
theorem meaningful_iff_means {text : List Char} : Meaningful text ↔ ∃ items, Means text items :=
  ⟨exists_means_of_length_le text.length (Nat.le_refl _), fun ⟨_, h⟩ => h.meaningful⟩

/-! ## Tokens and trees -/

theorem tokensFrom_skip (skipped : Nat) (text : List Char) :
    tokensFrom skipped text = tokensFrom 0 (text.drop skipped) := by
  induction text generalizing skipped with
  | nil => cases skipped <;> rfl
  | cons c rest ih =>
    cases skipped with
    | zero => rfl
    | succ skipped => simpa [tokensFrom] using ih skipped

theorem tokensFrom_literal {c : Char} {rest : List Char} (plain : IsLiteral c rest) :
    tokensFrom 0 (c :: rest) = .char c :: tokensFrom 0 rest := by
  obtain ⟨hopen, hclose, hstar, hcolon⟩ := plain
  have unnamed : ¬ (c = ':' ∧ rest.takeWhile isWord ≠ []) := by
    rwa [takeWhile_isWord_ne_nil]
  simp only [tokensFrom]
  rw [if_neg unnamed, if_neg (fun h => hstar h.1)]
  simp [Token.ofChar, hopen, hclose, hstar]

/-- The tokens after a mark with a name: the name stops where the word characters do, and a text
that begins with none does not prolong it. -/
theorem tokensFrom_named {rest after : List Char} (named : startsWord rest = true)
    (hafter : startsWord after = false) :
    tokensFrom 0 (':' :: (rest ++ after)) = .segment (String.ofList (rest.takeWhile isWord)) ::
        tokensFrom 0 (rest.dropWhile isWord ++ after) ∧
      tokensFrom 0 ('*' :: (rest ++ after)) = .splat (String.ofList (rest.takeWhile isWord)) ::
        tokensFrom 0 (rest.dropWhile isWord ++ after) := by
  have hname := takeWhile_isWord_ne_nil.mpr named
  have behind := @List.drop_left Char (rest.takeWhile isWord) (rest.dropWhile isWord ++ after)
  rw [← List.append_assoc, List.takeWhile_append_dropWhile] at behind
  have skip : tokensFrom (rest.takeWhile isWord).length (rest ++ after) =
      tokensFrom 0 (rest.dropWhile isWord ++ after) := by
    rw [tokensFrom_skip, behind]
  constructor <;> simp [tokensFrom, takeWhile_isWord_append hafter, hname, skip]

/-- An asterisk without a name is a token of its own. -/
theorem tokensFrom_star {rest : List Char} (unnamed : startsWord rest = false) :
    tokensFrom 0 ('*' :: rest) = .star :: tokensFrom 0 rest := by
  simp [tokensFrom, takeWhile_isWord_of_not_startsWord unnamed, Token.ofChar]

/-- A token stands for the atom at the front of a text, whatever comes after the text. -/
structure IsFront (t : Token) (text : List Char) (a : Atom) (rest : List Char) : Prop where
  part_eq : t.part? = some (.atom a)
  absent_eq : a.absent = t.name?.toList.map fun _ => none
  tokens_cons : ∀ after, startsWord after = false →
    tokensFrom 0 (text ++ after) = t :: tokensFrom 0 (rest ++ after)

theorem Begins.exists_token {text rest : List Char} {a : Atom} (h : Begins text a rest) :
    ∃ t, IsFront t text a rest := by
  cases h with
  | @char c rest plain =>
    refine ⟨.char c, rfl, rfl, fun after hafter => ?_⟩
    have plain' : IsLiteral c (rest ++ after) := by
      simpa only [IsLiteral, startsWord_append hafter] using plain
    exact tokensFrom_literal plain'
  | segment named => exact ⟨.segment _, rfl, rfl, fun _ h => (tokensFrom_named named h).1⟩
  | splat named => exact ⟨.splat _, rfl, rfl, fun _ h => (tokensFrom_named named h).2⟩

/-- How the compiler sees a text that means items, whatever text and symbols come after it. -/
structure Layout (text : List Char) (items : List Item) where
  tokens : List Token
  nodes : List (Nested Token)
  parts : List Part
  tokens_eq : ∀ after, startsWord after = false →
    tokensFrom 0 (text ++ after) = tokens ++ tokensFrom 0 after
  nest_eq : ∀ outer current more,
    Nested.nestFrom .opening .closing outer current (tokens ++ more) =
      Nested.nestFrom .opening .closing outer (nodes.reverse ++ current) more
  parts_eq : partsOf? nodes = some parts
  items_eq : itemsOfParts? parts = some items
  absent_eq : absentSlots items = (tokens.filterMap Token.name?).map fun _ => none

namespace Layout

def nil : Layout [] [] where
  tokens := []
  nodes := []
  parts := []
  tokens_eq := fun _ _ => rfl
  nest_eq := fun _ _ _ => rfl
  parts_eq := rfl
  items_eq := rfl
  absent_eq := rfl

/-- Parts that can be compiled do not begin with an asterisk, which would repeat the atom. -/
theorem itemsOfParts?_atom {a : Atom} {parts : List Part} {items : List Item}
    (h : itemsOfParts? parts = some items) :
    itemsOfParts? (.atom a :: parts) = some (.once a :: items) := by
  cases parts with
  | nil => simpa [itemsOfParts?] using h
  | cons part rest =>
    cases part with
    | star => cases h
    | atom b => simp [itemsOfParts?, h]
    | optional body => simpa [itemsOfParts?] using h

theorem nestFrom_part {t : Token} {part : Part} (h : t.part? = some part)
    (outer : List (List (Nested Token))) (current : List (Nested Token)) (more : List Token) :
    Nested.nestFrom .opening .closing outer current (t :: more) =
      Nested.nestFrom .opening .closing outer (.leaf t :: current) more := by
  have opens : t ≠ .opening := by
    rintro rfl
    cases h
  have closes : t ≠ .closing := by
    rintro rfl
    cases h
  simp [Nested.nestFrom, opens, closes]

theorem partsOf?_leaf {t : Token} {part : Part} {row : List (Nested Token)} {parts : List Part}
    (h : t.part? = some part) (hrow : partsOf? row = some parts) :
    partsOf? (.leaf t :: row) = some (part :: parts) := by
  rw [partsOf?, partOf?, h, hrow]
  rfl

theorem part?_star : Token.star.part? = some .star := rfl

section
variable {text rest : List Char} {items : List Item} {t : Token} {a : Atom}

/-- The layout of a text with one more atom in front. -/
def once (front : IsFront t text a rest) (l : Layout rest items) :
    Layout text (.once a :: items) where
  tokens := t :: l.tokens
  nodes := .leaf t :: l.nodes
  parts := .atom a :: l.parts
  tokens_eq := fun after h => by rw [front.tokens_cons after h, l.tokens_eq after h]; rfl
  nest_eq := fun outer current more => by simp [nestFrom_part front.part_eq, l.nest_eq]
  parts_eq := partsOf?_leaf front.part_eq l.parts_eq
  items_eq := itemsOfParts?_atom l.items_eq
  absent_eq := by
    rw [absentSlots, Item.absent, l.absent_eq, front.absent_eq]
    cases h : t.name? <;> simp [h]

/-- The layout of a text with one more atom in front, and an asterisk that repeats it. -/
def many (front : IsFront t text a ('*' :: rest)) (unnamed : startsWord rest = false)
    (l : Layout rest items) : Layout text (.many a :: items) where
  tokens := t :: .star :: l.tokens
  nodes := .leaf t :: .leaf .star :: l.nodes
  parts := .atom a :: .star :: l.parts
  tokens_eq := fun after h => by
    have behind : startsWord (rest ++ after) = false := (startsWord_append h).trans unnamed
    rw [front.tokens_cons after h, List.cons_append, tokensFrom_star behind, l.tokens_eq after h]
    rfl
  nest_eq := fun outer current more => by
    simp [nestFrom_part front.part_eq, nestFrom_part part?_star, l.nest_eq]
  parts_eq := partsOf?_leaf front.part_eq (partsOf?_leaf part?_star l.parts_eq)
  items_eq := by simp [itemsOfParts?, l.items_eq]
  absent_eq := by
    have star : Token.star.name? = none := rfl
    rw [absentSlots, Item.absent, l.absent_eq, front.absent_eq]
    cases h : t.name? <;> simp [h, star]

end

/-- The layout of a group and what follows it. -/
def group {body rest : List Char} {inner items : List Item} (b : Layout body inner)
    (l : Layout rest items) :
    Layout ('(' :: (body ++ ')' :: rest)) (.optional inner :: items) where
  tokens := .opening :: (b.tokens ++ .closing :: l.tokens)
  nodes := .group b.nodes :: l.nodes
  parts := .optional inner :: l.parts
  tokens_eq := fun after h => by
    have opening (more : List Char) :
        tokensFrom 0 ('(' :: more) = .opening :: tokensFrom 0 more := by
      simp [tokensFrom, Token.ofChar]
    have closing (more : List Char) :
        tokensFrom 0 (')' :: more) = .closing :: tokensFrom 0 more := by
      simp [tokensFrom, Token.ofChar]
    have inside := b.tokens_eq (')' :: (rest ++ after)) (startsWord_closing _)
    simp only [List.cons_append, List.append_assoc, opening, inside, closing, l.tokens_eq after h]
  nest_eq := fun outer current more => by
    simp [Nested.nestFrom, b.nest_eq, l.nest_eq]
  parts_eq := by simp [partsOf?, partOf?, b.parts_eq, b.items_eq, l.parts_eq]
  items_eq := by simp [itemsOfParts?, l.items_eq]
  absent_eq := by
    simp [absentSlots, Item.absent, b.absent_eq, l.absent_eq, List.filterMap_cons, Token.name?]

end Layout

namespace Means

theorem layout {text : List Char} {items : List Item} (h : Means text items) :
    Nonempty (Layout text items) := by
  induction h with
  | nil => exact ⟨.nil⟩
  | once front _ ih =>
    obtain ⟨l⟩ := ih
    obtain ⟨t, front⟩ := front.exists_token
    exact ⟨.once front l⟩
  | many front unnamed _ ih =>
    obtain ⟨l⟩ := ih
    obtain ⟨t, front⟩ := front.exists_token
    exact ⟨.many front unnamed l⟩
  | group _ _ ih ih' =>
    obtain ⟨b⟩ := ih
    obtain ⟨l⟩ := ih'
    exact ⟨.group b l⟩

/-- A text is compiled to the items that it means. -/
theorem items?_eq {template : String} {items : List Item} (h : Means template.toList items) :
    items? template = some items := by
  obtain ⟨l⟩ := h.layout
  have tokens_eq : tokens template = l.tokens := by
    simpa [tokens, tokensFrom] using l.tokens_eq [] rfl
  have nodes_eq : nodes template = l.nodes := by
    have := l.nest_eq [] [] []
    simpa [nodes, Nested.nest, tokens_eq, Nested.nestFrom, Nested.unclosed] using this
  simp [items?, nodes_eq, l.parts_eq, l.items_eq]

theorem absentSlots_eq {text : List Char} {items : List Item} (h : Means text items) :
    absentSlots items = emptySlots text := by
  obtain ⟨l⟩ := h.layout
  have tokens_eq : tokensFrom 0 text = l.tokens := by
    simpa [tokensFrom] using l.tokens_eq [] rfl
  rw [l.absent_eq, emptySlots, tokens_eq]

theorem unique {text : List Char} {items items' : List Item} (h : Means text items)
    (h' : Means text items') : items = items' := by
  rw [← String.toList_ofList (l := text)] at h h'
  exact Option.some.inj (h.items?_eq.symm.trans h'.items?_eq)

end Means

end FragmentRouting.Template
