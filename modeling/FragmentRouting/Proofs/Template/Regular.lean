import FragmentRouting.Proofs.Template.Acceptance

/-!
# Reading regular expressions

The regular expression of a template is a text. Read as such, it is a row of parts: characters,
classes, groups and repetitions. They are those of the items that the template is compiled to.

* `Regular`, `Builder`: the parts of a regular expression, and a reader that builds them;
* `Tracks.accepts`: it reads only what `Reader` accepts;
* `build_rowText`: the text of trees is read into the parts of their items, by an induction on the
  trees;
* `readItems?_regexOf`: reading the regular expression of a template gives its items, or nothing if
  it has none.
-/

namespace FragmentRouting.Template

open Text (isWord)

/-- How often a part is read. -/
inductive Quantifier where
  | optional
  | star
  | plus
  deriving DecidableEq, Repr

/-- A part of a regular expression. -/
inductive Regular where
  | char (c : Char)
  /-- Any character but a line feed. -/
  | any
  /-- Any character but these. -/
  | outside (excluded : List Char)
  | start
  | finish
  /-- A denied look ahead at the empty text, which is nowhere. -/
  | never
  | group (captures : Bool) (body : List Regular)
  /-- A lazy part is read as seldom as possible, any other as often as possible. -/
  | repeated (quantifier : Quantifier) (isLazy : Bool) (part : Regular)

/-- The part that a character by itself stands for. -/
def Regular.ofChar (c : Char) : Regular :=
  if c = '^' then .start else if c = '.' then .any else .char c

/-- What can be done with a part by a sign behind it. -/
def Regular.operand : Regular → Operand
  | char _ | any | outside _ | never | group _ _ => .one
  | start | finish => .nothing
  | repeated _ isLazy _ => if isLazy then .qualified else .repetition

/-- What can be done behind a row of parts, given in reverse. -/
def operandOf : List Regular → Operand
  | [] => .nothing
  | part :: _ => part.operand

/-! ## The reader -/

/-- What stands right before a place in a regular expression, if it is no part that is complete. -/
inductive Spot where
  | plain
  | escaped
  /-- A parenthesis that opens a group. -/
  | opened
  /-- A parenthesis that opens a group, and a question mark. -/
  | extended
  | bracket
  /-- The start of a class, with the characters that it excludes so far, in reverse. -/
  | inClass (excluded : List Char)
  deriving DecidableEq, Repr

/-- What has been read of a regular expression. -/
structure Builder where
  spot : Spot
  /-- The groups that are open, the innermost first: whether each of them captures, and the parts
  before it in reverse. -/
  outer : List (Bool × List Regular)
  /-- The parts of the innermost group in reverse. -/
  current : List Regular

namespace Builder

def start : Builder :=
  ⟨.plain, [], []⟩

def push (b : Builder) (part : Regular) : Builder :=
  ⟨.plain, b.outer, part :: b.current⟩

/-- Repeats the last part. -/
def quantify? (b : Builder) (q : Quantifier) : Option Builder :=
  match b.current with
  | part :: before =>
    if part.operand = .one then some ⟨.plain, b.outer, .repeated q false part :: before⟩ else none
  | [] => none

/-- The builder behind a question mark, which makes a repetition lazy. -/
def question? (b : Builder) : Option Builder :=
  match b.current with
  | .repeated q false part :: before => some ⟨.plain, b.outer, .repeated q true part :: before⟩
  | _ => b.quantify? .optional

/-- The builder behind a character of its own meaning. Counted and possessive repetitions, the end of
a line and alternatives are not known. -/
def readPlain? (b : Builder) (c : Char) : Option Builder :=
  if c = '\\' then some { b with spot := .escaped }
  else if c = '[' then some { b with spot := .bracket }
  else if c = '(' then some ⟨.opened, (true, b.current) :: b.outer, []⟩
  else if c = ')' then
    match b.outer with
    | [] => none
    | (captures, before) :: outer => some ⟨.plain, outer, .group captures b.current.reverse :: before⟩
  else if c = '?' then b.question?
  else if c = '*' then b.quantify? .star
  else if c = '+' then b.quantify? .plus
  else if c = '\x7b' ∨ c = '$' ∨ c = '|' then none
  else some (b.push (.ofChar c))

/-- The builder behind one more character. Of the word characters only the sign of the end is known
behind a backslash, of the classes only those that exclude single characters, and of the groups with
a question mark only those that do not capture. -/
def read? (b : Builder) (c : Char) : Option Builder :=
  match b.spot with
  | .plain => b.readPlain? c
  | .opened => if c = '?' then some { b with spot := .extended } else b.readPlain? c
  | .extended =>
    match b.outer with
    | (_, before) :: outer =>
      if c = ':' then some ⟨.plain, (false, before) :: outer, b.current⟩ else none
    | [] => none
  | .escaped =>
    if c = 'Z' then some (b.push .finish) else if isWord c then none else some (b.push (.char c))
  | .bracket => if c = '^' then some { b with spot := .inClass [] } else none
  | .inClass excluded =>
    if c = '\\' ∨ c = '-' ∨ (c = ']' ∧ excluded = []) then none
    else if c = ']' then some (b.push (.outside excluded.reverse))
    else some { b with spot := .inClass (c :: excluded) }

/-- The parts of a text, behind those that have been read. -/
def build : Builder → List Char → Option (List Regular)
  | b, [] => if b.spot = .plain ∧ b.outer.isEmpty then some b.current.reverse else none
  | b, c :: rest =>
    match b.read? c with
    | some next => next.build rest
    | none => none

end Builder

/-- The parts of a regular expression, if it can be read. A look ahead is known only by itself. -/
def regular? (regex : String) : Option (List Regular) :=
  if regex = neverRegex then some [.never] else Builder.start.build regex.toList

/-! ## What is read is accepted -/

theorem Regular.operand_ofChar (c : Char) :
    (Regular.ofChar c).operand = if c = '^' then .nothing else .one := by
  unfold Regular.ofChar
  split_ifs <;> rfl

theorem operandOf_ne_extended (current : List Regular) : operandOf current ≠ .extended := by
  cases current with
  | nil => nofun
  | cons part before =>
    cases part with
    | repeated _ isLazy _ => cases isLazy <;> nofun
    | _ => nofun

/-- A builder and a reader that stand at the same place of the same text. -/
inductive Tracks : Builder → Reader → Prop
  | plain {outer : List (Bool × List Regular)} {current : List Regular} :
      Tracks ⟨.plain, outer, current⟩ ⟨.plain, outer.length, operandOf current⟩
  | opened {outer : List (Bool × List Regular)} :
      Tracks ⟨.opened, outer, []⟩ ⟨.plain, outer.length, .opened⟩
  | extended {outer : List (Bool × List Regular)} :
      Tracks ⟨.extended, outer, []⟩ ⟨.plain, outer.length, .extended⟩
  | escaped {outer : List (Bool × List Regular)} {current : List Regular} {operand : Operand} :
      Tracks ⟨.escaped, outer, current⟩ ⟨.escaped, outer.length, operand⟩
  | bracket {outer : List (Bool × List Regular)} {current : List Regular} {operand : Operand} :
      Tracks ⟨.bracket, outer, current⟩ ⟨.inClass, outer.length, operand⟩
  | inClass {excluded : List Char} {outer : List (Bool × List Regular)} {current : List Regular}
      {operand : Operand} :
      Tracks ⟨.inClass excluded, outer, current⟩ ⟨.inClass, outer.length, operand⟩

section
variable {spot : Spot} {outer : List (Bool × List Regular)} {current : List Regular}
  {next : Builder} {operand : Operand} {c : Char}

theorem tracks_of_quantify? {q : Quantifier}
    (h : (Builder.mk spot outer current).quantify? q = some next) :
    operandOf current = .one ∧ Tracks next ⟨.plain, outer.length, .repetition⟩ := by
  unfold Builder.quantify? at h
  split at h
  · rename_i part before same
    obtain rfl : current = part :: before := same
    split at h
    · rename_i one
      cases h
      exact ⟨one, .plain⟩
    · cases h
  · cases h

theorem tracks_of_question? (h : (Builder.mk spot outer current).question? = some next) :
    operandOf current = .one ∧ Tracks next ⟨.plain, outer.length, .repetition⟩ ∨
      operandOf current = .repetition ∧ Tracks next ⟨.plain, outer.length, .qualified⟩ := by
  unfold Builder.question? at h
  split at h
  · rename_i q part before same
    obtain rfl : current = .repeated q false part :: before := same
    cases h
    exact .inr ⟨rfl, .plain⟩
  · exact .inl (tracks_of_quantify? h)

/-- Where the builder goes on behind a character of its own meaning, so does the reader. -/
theorem tracks_of_readPlain?
    (hoperand : operand = operandOf current ∨ operand = .opened ∧ current = [] ∧ c ≠ '?')
    (step : (Builder.mk spot outer current).readPlain? c = some next) :
    ∃ r, (Reader.mk .plain outer.length operand).readPlain? c = some r ∧ Tracks next r := by
  have extended : operand ≠ .extended := by
    rcases hoperand with rfl | ⟨rfl, -⟩
    · exact operandOf_ne_extended current
    · nofun
  have one (h : operandOf current = .one) : operand = .one := by
    rcases hoperand with rfl | ⟨-, rfl, -⟩
    · exact h
    · cases h
  -- A case for each sign of its own, and one for any other character.
  unfold Builder.readPlain? at step
  split_ifs at step with backslash bracket opens closes question star plus unknown
  · subst backslash
    cases step
    refine ⟨_, ?_, @Tracks.escaped outer current operand⟩
    simp [Reader.readPlain?, extended, Place.next]
  · subst bracket
    cases step
    refine ⟨_, ?_, @Tracks.bracket outer current operand⟩
    simp [Reader.readPlain?, extended, Place.next]
  · subst opens
    cases step
    refine ⟨_, ?_, Tracks.opened⟩
    simp [Reader.readPlain?, extended]
  · subst closes
    cases outer with
    | nil => cases step
    | cons group outer =>
      cases step
      refine ⟨_, ?_, Tracks.plain⟩
      simp [Reader.readPlain?, extended, operandOf, Regular.operand]
  · subst question
    have known : operand = operandOf current := hoperand.resolve_right (by simp)
    rcases tracks_of_question? step with ⟨last, tracks⟩ | ⟨last, tracks⟩ <;>
      exact ⟨_, by simp [Reader.readPlain?, known, last], tracks⟩
  · subst star
    obtain ⟨last, tracks⟩ := tracks_of_quantify? step
    exact ⟨_, by simp [Reader.readPlain?, one last], tracks⟩
  · subst plus
    obtain ⟨last, tracks⟩ := tracks_of_quantify? step
    exact ⟨_, by simp [Reader.readPlain?, one last], tracks⟩
  · cases step
    have last : Tracks ⟨.plain, outer, .ofChar c :: current⟩
        ⟨.plain, outer.length, (Regular.ofChar c).operand⟩ := .plain
    refine ⟨_, ?_, last⟩
    rw [not_or, not_or] at unknown
    by_cases anchor : c = '^' <;>
      simp [Reader.readPlain?, extended, backslash, bracket, opens, closes, question, star, plus,
        unknown, anchor, Regular.operand_ofChar]

theorem Tracks.read? {b : Builder} {r : Reader} (h : Tracks b r) (step : b.read? c = some next) :
    ∃ r', r.read? c = some r' ∧ Tracks next r' := by
  cases h with
  | plain => exact tracks_of_readPlain? (.inl rfl) step
  | opened =>
    simp only [Builder.read?] at step
    split at step
    · subst c
      cases step
      refine ⟨_, ?_, Tracks.extended⟩
      simp [Reader.read?, Reader.readPlain?]
    · rename_i other
      exact tracks_of_readPlain? (.inr ⟨rfl, rfl, other⟩) step
  | @extended outer =>
    cases outer with
    | nil => cases step
    | cons group outer =>
      simp only [Builder.read?] at step
      split at step
      · subst c
        cases step
        refine ⟨_, ?_, Tracks.plain⟩
        simp [Reader.read?, Reader.readPlain?, operandOf]
      · cases step
  | escaped =>
    simp only [Builder.read?] at step
    split_ifs at step with finish word
    · cases step
      refine ⟨_, ?_, Tracks.plain⟩
      simp [Reader.read?, finish, operandOf, Regular.operand]
    · cases step
      have noAnchor : c ≠ 'A' ∧ c ≠ 'Z' ∧ c ≠ 'b' ∧ c ≠ 'B' := by
        refine ⟨?_, ?_, ?_, ?_⟩ <;>
        · rintro rfl
          exact word rfl
      refine ⟨_, ?_, Tracks.plain⟩
      simp [Reader.read?, noAnchor, operandOf, Regular.operand]
  | bracket =>
    simp only [Builder.read?] at step
    split at step
    · cases step
      subst c
      refine ⟨_, ?_, @Tracks.inClass [] _ _ .one⟩
      simp [Reader.read?, Place.next]
    · cases step
  | inClass =>
    simp only [Builder.read?] at step
    split_ifs at step with unknown closes
    · cases step
      refine ⟨_, ?_, Tracks.plain⟩
      simp [Reader.read?, Place.next, closes, operandOf, Regular.operand]
    · cases step
      refine ⟨_, ?_, @Tracks.inClass _ _ _ .one⟩
      simp [Reader.read?, Place.next, closes, (not_or.mp unknown).1]

/-- What is read into parts is accepted. -/
theorem Tracks.accepts {b : Builder} {r : Reader} (h : Tracks b r) {text : List Char}
    {row : List Regular} (built : b.build text = some row) : r.accepts text = true := by
  induction text generalizing b r with
  | nil =>
    rw [Builder.build] at built
    split at built
    · rename_i done
      cases h <;> simp_all [Reader.accepts]
    · cases built
  | cons c rest ih =>
    rw [Builder.build] at built
    split at built
    · rename_i next step
      obtain ⟨r', hread, tracks⟩ := h.read? step
      rw [Reader.accepts, hread]
      exact ih tracks built
    · cases built

end

/-! ## The parts of items -/

def Atom.regular : Atom → Regular
  | char c => .char c
  | segment => .group true [.repeated .plus false (.outside ['/', '?'])]
  | splat => .group true [.repeated .star true (.outside ['?'])]

mutual

def Item.regular : Item → Regular
  | .once a => a.regular
  | .many a => .repeated .star false a.regular
  | .optional body => .repeated .optional false (.group false (regulars body))

def regulars : List Item → List Regular
  | [] => []
  | item :: rest => item.regular :: regulars rest

end

/-- The part of a query. -/
def queryRegular : Regular :=
  .repeated .optional false (.group true [.char '?', .repeated .star false .any])

/-- The parts of the regular expression of a template with these items. -/
def wholeRegulars (items : List Item) : List Regular :=
  .start :: (regulars items ++ [queryRegular, .finish])

/-! ## Items of parts -/

def Regular.atom? : Regular → Option Atom
  | char c => some (.char c)
  | group true [repeated .plus false (outside ['/', '?'])] => some .segment
  | group true [repeated .star true (outside ['?'])] => some .splat
  | _ => none

mutual

def Regular.item? : Regular → Option Item
  | .repeated .star false part => part.atom?.map .many
  | .repeated .optional false (.group false body) => (itemsOfRegulars? body).map .optional
  | part => part.atom?.map .once

def itemsOfRegulars? : List Regular → Option (List Item)
  | [] => some []
  | part :: rest => part.item?.bind fun item => (itemsOfRegulars? rest).map (item :: ·)

end

/-- The items between the start and the query at the end. -/
def itemsOfWhole? : List Regular → Option (List Item)
  | .start :: rest =>
    match rest.reverse with
    | .finish :: .repeated .optional false (.group true [.char '?', .repeated .star false .any]) ::
        body => itemsOfRegulars? body.reverse
    | _ => none
  | _ => none

/-- The items that are read from a regular expression. -/
def readItems? (regex : String) : Option (List Item) :=
  (regular? regex).bind itemsOfWhole?

theorem Atom.atom?_regular (a : Atom) : a.regular.atom? = some a := by
  cases a <;> rfl

mutual

theorem Item.item?_regular (item : Item) : item.regular.item? = some item := by
  cases item with
  | once a => cases a <;> rfl
  | many a => simp [Item.regular, Regular.item?, a.atom?_regular]
  | optional body => simp [Item.regular, Regular.item?, itemsOfRegulars?_regulars body]

theorem itemsOfRegulars?_regulars (items : List Item) :
    itemsOfRegulars? (regulars items) = some items := by
  cases items with
  | nil => rfl
  | cons item rest =>
    simp [regulars, itemsOfRegulars?, Item.item?_regular item, itemsOfRegulars?_regulars rest]

end

theorem itemsOfWhole?_wholeRegulars (items : List Item) :
    itemsOfWhole? (wholeRegulars items) = some items := by
  simp [itemsOfWhole?, wholeRegulars, queryRegular, itemsOfRegulars?_regulars]

/-! ## Reading the text of tokens -/

namespace Builder

variable {outer : List (Bool × List Regular)} {current : List Regular} {rest : List Char}

theorem build_escaped {c : Char} (star : c ≠ '*') (opens : c ≠ '(') (closes : c ≠ ')') :
    build ⟨.plain, outer, current⟩ (escaped c ++ rest) =
      build ⟨.plain, outer, .char c :: current⟩ rest := by
  cases escape : needsEscape c with
  | true =>
    have noWord : isWord c = false := by
      rw [← Bool.not_eq_true]
      intro word
      rw [not_needsEscape word] at escape
      cases escape
    have other : c ≠ 'Z' := by
      rintro rfl
      cases noWord
    simp [escaped, escape, build, read?, readPlain?, push, noWord, other]
  | false =>
    have other {d : Char} (hd : needsEscape d = true) : c ≠ d := ne_of_not_needsEscape escape hd
    have plain : c ≠ '\\' ∧ c ≠ '[' ∧ c ≠ '?' ∧ c ≠ '+' ∧ c ≠ '\x7b' ∧ c ≠ '$' ∧ c ≠ '|' := by
      refine ⟨?_, ?_, ?_, ?_, ?_, ?_, ?_⟩ <;> exact other (by decide)
    have part : Regular.ofChar c = .char c := by
      rw [Regular.ofChar, if_neg (other (by decide)), if_neg (other (by decide))]
    simp [escaped, escape, build, read?, readPlain?, push, star, opens, closes, plain, part]

theorem build_atom {t : Token} {a : Atom} (proper : t.Proper) (h : t.part? = some (.atom a))
    (isPaired : Bool) :
    build ⟨.plain, outer, current⟩ (pairedText (fun _ => segmentGroup.toList)
        (fun _ => splatGroup.toList) (t, isPaired) ++ rest) =
      build ⟨.plain, outer, a.regular :: current⟩ rest := by
  cases t with
  | char c =>
    cases h
    exact build_escaped proper.1 proper.2.1 proper.2.2
  | segment name =>
    cases h
    simp [pairedText, Token.written, segmentGroup, build, read?, readPlain?, push, quantify?,
      Regular.operand, Atom.regular]
  | splat name =>
    cases h
    simp [pairedText, Token.written, splatGroup, build, read?, readPlain?, push, quantify?,
      question?, Regular.operand, Atom.regular]
  | star | opening | closing => cases h

theorem build_star {a : Atom} (isPaired : Bool) :
    build ⟨.plain, outer, a.regular :: current⟩ (pairedText (fun _ => segmentGroup.toList)
        (fun _ => splatGroup.toList) (.star, isPaired) ++ rest) =
      build ⟨.plain, outer, (Item.many a).regular :: current⟩ rest := by
  cases a <;>
    simp [pairedText, Token.written, build, read?, readPlain?, quantify?, Regular.operand,
      Item.regular, Atom.regular]

theorem build_opening :
    build ⟨.plain, outer, current⟩ (pairedText (fun _ => segmentGroup.toList)
        (fun _ => splatGroup.toList) (.opening, true) ++ rest) =
      build ⟨.plain, (false, current) :: outer, []⟩ rest := by
  simp [pairedText, optionalGroup, plainOpening, build, read?, readPlain?]

theorem build_closing {body : List Item} :
    build ⟨.plain, (false, current) :: outer, (regulars body).reverse⟩
        (pairedText (fun _ => segmentGroup.toList) (fun _ => splatGroup.toList) (.closing, true) ++
          rest) =
      build ⟨.plain, outer, (Item.optional body).regular :: current⟩ rest := by
  simp [pairedText, optionalGroup, build, read?, readPlain?, question?, quantify?,
    Regular.operand, Item.regular]

/-- The text of trees is read into the parts of their items. -/
theorem build_rowText {row : List (Nested Token)} {parts : List Part} {items : List Item}
    (hparts : partsOf? row = some parts) (hitems : itemsOfParts? parts = some items)
    (proper : ∀ m ∈ rowOf row, m.1.Proper) (outer : List (Bool × List Regular))
    (current : List Regular) (rest : List Char) :
    build ⟨.plain, outer, current⟩ (rowText (fun _ => segmentGroup.toList)
        (fun _ => splatGroup.toList) (rowOf row) ++ rest) =
      build ⟨.plain, outer, (regulars items).reverse ++ current⟩ rest := by
  match row with
  | [] =>
    cases hparts
    cases hitems
    rfl
  | .group body :: others =>
    obtain ⟨part, more, hpart, hmore, rfl⟩ := partsOf?_cons_eq_some_iff.mp hparts
    obtain ⟨inside, inner, hinside, hinner, rfl⟩ := partOf?_group_eq_some_iff.mp hpart
    obtain ⟨items', hitems', rfl⟩ := Option.map_eq_some_iff.mp hitems
    simp only [rowOf, Nested.row, List.cons_append, List.append_assoc, List.nil_append,
      List.forall_mem_cons, List.forall_mem_append] at proper
    obtain ⟨-, hbody, -, hothers⟩ := proper
    simp only [rowOf, Nested.row, List.cons_append, List.append_assoc, List.nil_append,
      rowText_cons, rowText_append, build_opening]
    rw [build_rowText hinside hinner hbody, List.append_nil, build_closing,
      build_rowText hmore hitems' hothers]
    simp [regulars]
  | .leaf t :: others =>
    obtain ⟨part, more, hpart, hmore, rfl⟩ := partsOf?_cons_eq_some_iff.mp hparts
    have hpart : t.part? = some part := hpart
    obtain ⟨ht, hothers⟩ := List.forall_mem_cons.mp proper
    cases part with
    | star => cases hitems
    | optional _ => cases t <;> cases hpart
    | atom a =>
      rw [rowOf, Nested.row, List.singleton_append, rowText_cons, List.append_assoc,
        build_atom ht hpart]
      rcases itemsOfParts?_behind_atom hitems with
        ⟨items', hitems', rfl⟩ | ⟨more', items', rfl, hitems', rfl⟩
      · rw [build_rowText hmore hitems' hothers]
        simp [regulars, Item.regular]
      · obtain ⟨others', rfl, hmore'⟩ := exists_leaf_of_star hmore
        obtain ⟨-, hothers⟩ := List.forall_mem_cons.mp hothers
        rw [rowOf, Nested.row, List.singleton_append, rowText_cons, List.append_assoc, build_star,
          build_rowText hmore' hitems' hothers]
        simp [regulars]
termination_by sizeOf row

end Builder

/-! ## The regular expression of a template -/

theorem regular?_regexOf_eq_build (template : String) :
    regular? (regexOf template) = Builder.start.build (regexOf template).toList := by
  have other : regexOf template ≠ neverRegex := by
    intro same
    have first := congrArg (fun text => text.toList.head?) same
    simp [toList_regexOf, neverRegex] at first
  rw [regular?, if_neg other]

/-- The regular expression of a template with items is read into their parts. -/
theorem regular?_regexOf {template : String} {items : List Item}
    (h : items? template = some items) :
    regular? (regexOf template) = some (wholeRegulars items) := by
  obtain ⟨parts, hparts, hitems⟩ := Option.bind_eq_some_iff.mp h
  have proper : ∀ m ∈ templateRow template, m.1.Proper := fun m hm =>
    (readable_templateRow template).proper m.1 (List.mem_map_of_mem hm)
  have anchored (text : List Char) :
      Builder.start.build ('^' :: text) = Builder.build ⟨.plain, [], [.start]⟩ text := by
    simp [Builder.build, Builder.start, Builder.read?, Builder.readPlain?, Builder.push,
      Regular.ofChar]
  have question : isWord '?' = false := by decide
  have query (row : List Regular) :
      Builder.build ⟨.plain, [], row⟩ "(\\?.*)?\\Z".toList =
        some (row.reverse ++ [queryRegular, .finish]) := by
    simp [Builder.build, Builder.read?, Builder.readPlain?, Builder.push, Builder.question?,
      Builder.quantify?, Regular.ofChar, Regular.operand, queryRegular, question]
  rw [regular?_regexOf_eq_build, toList_regexOf, anchored, templateRow,
    Builder.build_rowText hparts hitems proper, query, wholeRegulars]
  simp

theorem regular?_regexOf_eq_none {template : String} (h : items? template = none) :
    regular? (regexOf template) = none := by
  rw [regular?_regexOf_eq_build, ← Option.not_isSome_iff_eq_none, Option.isSome_iff_exists]
  rintro ⟨row, built⟩
  have accepted := Tracks.plain.accepts built
  exact items?_eq_none_iff.mp h (accepts_regexOf.mp accepted)

theorem regular?_neverRegex : regular? neverRegex = some [.never] :=
  if_pos rfl

/-- Reading the regular expression of a template gives the items of the template, or nothing if it
has none. -/
theorem readItems?_regexOf (template : String) : readItems? (regexOf template) = items? template := by
  cases h : items? template with
  | none => rw [readItems?, regular?_regexOf_eq_none h, Option.bind_none]
  | some items =>
    rw [readItems?, regular?_regexOf h, Option.bind_some, itemsOfWhole?_wholeRegulars]

example : (readItems? "^a*(?:([^/?]+))?(\\?.*)?\\Z").map slotsOf = some 1 := by
  decide +kernel

end FragmentRouting.Template

namespace FragmentRouting.Pattern

/-- A pattern matches by the items that its regular expression is read into, if it has any. -/
theorem readItems?_regex (p : Pattern) : Template.readItems? p.regex = p.items := by
  cases compiled : p.items with
  | none =>
    rw [Pattern.regex, compiled]
    exact congrArg (Option.bind · Template.itemsOfWhole?) Template.regular?_neverRegex
  | some items =>
    rw [Pattern.regex, compiled]
    exact (Template.readItems?_regexOf p.template).trans (p.compiled.symm.trans compiled)

end FragmentRouting.Pattern
