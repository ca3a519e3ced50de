import FragmentRouting.Event
import FragmentRouting.Proofs.Template.CaptureGroups

/-!
# Accepted templates

Whether a template is compiled is decided on its trees. The regular expression of the template tells
the same:

* `Reader`: reads a regular expression character by character, and refuses a repetition of nothing
  and a parenthesis without a partner;
* `accepts_regexOf`: it accepts the regular expression of a template if the template is meaningful;
* `regex_eq_never_iff`: so the pattern that matches nothing stands for exactly the templates whose
  regular expression is refused.
-/

namespace FragmentRouting.Template

/-! ## A reader of regular expressions -/

/-- What stands right before a place in a regular expression. -/
inductive Operand where
  /-- Nothing to repeat: the start, a bar, an anchor, or the opening of a group. -/
  | nothing
  /-- A parenthesis that opens a group. -/
  | opened
  /-- A parenthesis that opens a group, and a question mark. -/
  | extended
  /-- A character, a class of characters or a group. -/
  | one
  /-- A repetition, which a further sign can make lazy or possessive. -/
  | repetition
  /-- A repetition with such a sign. -/
  | qualified
  deriving DecidableEq, Repr

/-- How far a regular expression has been read: the place, how many groups are open, and what stands
right before. -/
structure Reader where
  place : Place
  depth : Nat
  operand : Operand
  deriving DecidableEq, Repr

namespace Reader

/-- The reader behind a character of its own meaning. It refuses a repetition of nothing or of a
repetition, and a parenthesis that closes no group. It does not know counted repetitions, and of the
groups with a question mark only those that do not capture, and refuses them too. -/
def readPlain? (r : Reader) (c : Char) : Option Reader :=
  if r.operand = .extended then
    if c = ':' then some { r with operand := .nothing } else none
  else if c = '\\' ∨ c = '[' then some { r with place := Place.plain.next c }
  else if c = '(' then some { r with depth := r.depth + 1, operand := .opened }
  else if c = ')' then
    if r.depth = 0 then none else some { r with depth := r.depth - 1, operand := .one }
  else if c = '?' ∧ r.operand = .opened then some { r with operand := .extended }
  else if (c = '?' ∨ c = '+') ∧ r.operand = .repetition then some { r with operand := .qualified }
  else if c = '*' ∨ c = '+' ∨ c = '?' then
    if r.operand = .one then some { r with operand := .repetition } else none
  else if c = '\x7b' then none
  else if c = '^' ∨ c = '$' ∨ c = '|' then some { r with operand := .nothing }
  else some { r with operand := .one }

/-- The reader behind one more character. Some letters are anchors behind a backslash. -/
def read? (r : Reader) (c : Char) : Option Reader :=
  match r.place with
  | .plain => r.readPlain? c
  | .escaped =>
    let anchor := ['A', 'Z', 'b', 'B'].contains c
    some { r with place := .plain, operand := if anchor then .nothing else .one }
  | .inClass | .escapedInClass => some { r with place := r.place.next c, operand := .one }

/-- Whether a reader reads a text to its end and has no group open there. -/
def accepts : Reader → List Char → Bool
  | r, [] => r.place = .plain && r.depth = 0
  | r, c :: rest =>
    match r.read? c with
    | some next => next.accepts rest
    | none => false

def start : Reader :=
  ⟨.plain, 0, .nothing⟩

/-! ## Reading the text of tokens -/

section
variable {depth : Nat} {operand : Operand} {rest : List Char}

theorem accepts_escaped {c : Char} (star : c ≠ '*') (opens : c ≠ '(') (closes : c ≠ ')')
    (h : operand ≠ .extended) :
    accepts ⟨.plain, depth, operand⟩ (escaped c ++ rest) = accepts ⟨.plain, depth, .one⟩ rest := by
  cases escape : needsEscape c with
  | true =>
    have other {d : Char} (hd : needsEscape d = false) : c ≠ d :=
      Ne.symm (ne_of_not_needsEscape hd escape)
    have noAnchor : c ≠ 'A' ∧ c ≠ 'Z' ∧ c ≠ 'b' ∧ c ≠ 'B' :=
      ⟨other (by decide), other (by decide), other (by decide), other (by decide)⟩
    simp [escaped, escape, accepts, read?, readPlain?, h, Place.next, noAnchor]
  | false =>
    have other {d : Char} (hd : needsEscape d = true) : c ≠ d := ne_of_not_needsEscape escape hd
    have plain : c ≠ '\\' ∧ c ≠ '[' ∧ c ≠ '?' ∧ c ≠ '+' ∧ c ≠ '\x7b' ∧ c ≠ '^' ∧ c ≠ '$' ∧ c ≠ '|' := by
      refine ⟨?_, ?_, ?_, ?_, ?_, ?_, ?_, ?_⟩ <;> exact other (by decide)
    simp [escaped, escape, accepts, read?, readPlain?, h, star, opens, closes, plain]

theorem accepts_segmentGroup (h : operand ≠ .extended) :
    accepts ⟨.plain, depth, operand⟩ (segmentGroup.toList ++ rest) =
      accepts ⟨.plain, depth, .one⟩ rest := by
  simp [segmentGroup, accepts, read?, readPlain?, Place.next, h]

theorem accepts_splatGroup (h : operand ≠ .extended) :
    accepts ⟨.plain, depth, operand⟩ (splatGroup.toList ++ rest) =
      accepts ⟨.plain, depth, .one⟩ rest := by
  simp [splatGroup, accepts, read?, readPlain?, Place.next, h]

theorem accepts_star (h : operand ≠ .extended) :
    accepts ⟨.plain, depth, operand⟩ ('*' :: rest) =
      (decide (operand = .one) && accepts ⟨.plain, depth, .repetition⟩ rest) := by
  by_cases one : operand = .one <;> simp [accepts, read?, readPlain?, h, one]

/-- A token that is no parenthesis is read in its group, unless it is an asterisk with nothing to
repeat. -/
theorem accepts_plain {t : Token} (proper : t.Proper) (opens : t ≠ .opening)
    (closes : t ≠ .closing) (isPaired : Bool) (h : operand ≠ .extended) :
    ∃ behind, behind ≠ .extended ∧ decide (behind = .one) = t.isRepeatable ∧
      accepts ⟨.plain, depth, operand⟩ (pairedText (fun _ => segmentGroup.toList)
          (fun _ => splatGroup.toList) (t, isPaired) ++ rest) =
        ((t ≠ .star || decide (operand = .one)) && accepts ⟨.plain, depth, behind⟩ rest) := by
  cases t with
  | char c =>
    exact ⟨.one, by decide, rfl, accepts_escaped proper.1 proper.2.1 proper.2.2 h⟩
  | segment name => exact ⟨.one, by decide, rfl, accepts_segmentGroup h⟩
  | splat name => exact ⟨.one, by decide, rfl, accepts_splatGroup h⟩
  | star => exact ⟨.repetition, by decide, rfl, accepts_star h⟩
  | opening => exact absurd rfl opens
  | closing => exact absurd rfl closes

/-- A parenthesis opens a group, be it optional or not. -/
theorem accepts_opening (paired : Bool) (h : operand ≠ .extended) :
    ∃ inside, inside ≠ .extended ∧ decide (inside = .one) = false ∧
      accepts ⟨.plain, depth, operand⟩ (optionalGroup '(' paired ++ rest) =
        accepts ⟨.plain, depth + 1, inside⟩ rest := by
  cases paired with
  | true =>
    refine ⟨.nothing, by decide, rfl, ?_⟩
    simp [optionalGroup, plainOpening, accepts, read?, readPlain?, h]
  | false =>
    refine ⟨.opened, by decide, rfl, ?_⟩
    simp [optionalGroup, accepts, read?, readPlain?, h]

theorem accepts_closing (h : operand ≠ .extended) :
    accepts ⟨.plain, depth + 1, operand⟩ (optionalGroup ')' true ++ rest) =
      accepts ⟨.plain, depth, .repetition⟩ rest := by
  simp [optionalGroup, accepts, read?, readPlain?, h]

theorem not_accepts_stray (paired : Bool) (h : operand ≠ .extended) :
    accepts ⟨.plain, 0, operand⟩ (optionalGroup ')' paired ++ rest) = false := by
  cases paired <;> simp [optionalGroup, accepts, read?, readPlain?, h]

theorem accepts_query (h : operand ≠ .extended) :
    accepts ⟨.plain, depth, operand⟩ "(\\?.*)?\\Z".toList = decide (depth = 0) := by
  simp [accepts, read?, readPlain?, Place.next, h]

end

end Reader

theorem openAfter?_opening (depth : Nat) (rest : List Token) :
    openAfter? depth (.opening :: rest) = openAfter? (depth + 1) rest := by
  cases depth <;> rfl

theorem openAfter?_plain {t : Token} (opens : t ≠ .opening) (closes : t ≠ .closing) (depth : Nat)
    (rest : List Token) : openAfter? depth (t :: rest) = openAfter? depth rest := by
  cases t with
  | opening => exact absurd rfl opens
  | closing => exact absurd rfl closes
  | char _ | segment _ | splat _ | star => simp [openAfter?]

/-- The text of a row is accepted if its tokens close every parenthesis and repeat something with
every asterisk. A parenthesis that closes one has its partner, so that it ends an optional group,
which cannot be repeated. -/
theorem accepts_rowFrom {symbols : List Token} (proper : ∀ t ∈ symbols, t.Proper)
    {paired : List Nat} {position : Nat} {opened : List Nat}
    (hpaired : ∀ i ∈ partners position opened (symbols.flatMap Token.source), i ∈ paired)
    {operand : Operand} (h : operand ≠ .extended) :
    Reader.accepts ⟨.plain, opened.length, operand⟩
        (rowText (fun _ => segmentGroup.toList) (fun _ => splatGroup.toList)
          (rowFrom paired position symbols) ++ "(\\?.*)?\\Z".toList) =
      (decide (openAfter? opened.length symbols = some 0) &&
        tokensRepeat (decide (operand = .one)) symbols) := by
  induction symbols generalizing position opened operand with
  | nil =>
    rw [rowFrom, rowText, List.flatMap_nil, List.nil_append, Reader.accepts_query h]
    simp [openAfter?, tokensRepeat]
  | cons t rest ih =>
    obtain ⟨ht, hrest⟩ := List.forall_mem_cons.mp proper
    rw [List.flatMap_cons] at hpaired
    rw [rowFrom, rowText_cons, List.append_assoc]
    by_cases opens : t = .opening
    · subst opens
      rw [source_opening, List.singleton_append, partners_opening] at hpaired
      obtain ⟨inside, hinside, fresh, step⟩ := Reader.accepts_opening _ h
      rw [pairedText, step]
      have behind := ih hrest hpaired hinside
      simp only [List.length_cons] at behind
      rw [source_opening, List.length_singleton, behind, fresh, openAfter?_opening, tokensRepeat]
      simp [Token.isRepeatable]
    by_cases closes : t = .closing
    · subst closes
      rw [source_closing, List.singleton_append] at hpaired
      cases opened with
      | nil =>
        rw [pairedText]
        exact Reader.not_accepts_stray _ h
      | cons first others =>
        rw [partners_closing, List.forall_mem_cons, List.forall_mem_cons] at hpaired
        obtain ⟨-, here, hpaired⟩ := hpaired
        have partner : paired.contains position = true := List.contains_iff_mem.mpr here
        have fresh : Operand.repetition ≠ .extended := by decide
        have behind := ih hrest hpaired fresh
        rw [partner, pairedText]
        refine (Reader.accepts_closing h).trans ?_
        rw [source_closing, List.length_singleton, behind]
        simp [openAfter?, tokensRepeat, Token.isRepeatable]
    have word := (ht.plain.resolve_left opens).resolve_left closes
    rw [partners_append word] at hpaired
    obtain ⟨next, hnext, repeatable, step⟩ := Reader.accepts_plain ht opens closes _ h
    rw [step, ih hrest hpaired hnext, repeatable, openAfter?_plain opens closes, tokensRepeat]
    exact Bool.and_left_comm _ _ _

/-- The regular expression of a template is accepted exactly if the template is meaningful. -/
theorem accepts_regexOf {template : String} :
    Reader.start.accepts (regexOf template).toList = true ↔ Meaningful template.toList := by
  have anchored (text : List Char) :
      Reader.start.accepts ('^' :: text) =
        Reader.accepts ⟨.plain, ([] : List Nat).length, .nothing⟩ text := by
    simp [Reader.accepts, Reader.start, Reader.read?, Reader.readPlain?]
  have proper : ∀ t ∈ tokens template, t.Proper :=
    (readable_tokensFrom 0 template.toList).proper
  have fresh : Operand.nothing ≠ .extended := by decide
  rw [toList_regexOf, anchored, templateRow_eq, accepts_rowFrom proper (fun _ h => h) fresh,
    meaningful_iff_tokens, Bool.and_eq_true, decide_eq_true_iff]
  rfl

example : (["(:a)*c", "(:a*/)", "(:a)*/"].map fun t => Reader.start.accepts (regexOf t).toList) =
    [true, true, false] := by
  decide +kernel

end FragmentRouting.Template

namespace FragmentRouting.Pattern

open Template (Balanced IdleStar Meaningful Reader regexOf neverRegex)

theorem regexOf_ne_never (template : String) : regexOf template ≠ neverRegex := by
  intro same
  have chars := congrArg String.toList same
  rw [Template.toList_regexOf] at chars
  exact absurd (List.cons.inj chars).1 (by decide)

/-- Exactly the templates with a parenthesis that has no partner, or with an asterisk that has
neither a name nor anything to repeat, have a regular expression that is refused. They are compiled
to the one that matches nothing, with one warning. -/
theorem regex_eq_never_iff (template : String) (named : Option Bool) (config : Config) :
    let p := ofTemplate template named config
    let refused := ¬ Balanced template.toList ∨ IdleStar template.toList
    (p.regex = neverRegex ↔ refused) ∧ (¬ refused → p.regex = regexOf template) ∧
      (Reader.start.accepts (regexOf template).toList = false ↔ refused) ∧
      (Event.ofTemplate p).filter (fun e => e.level = "WARNING") =
        if p.regex = neverRegex then [.meaningless template] else [] := by
  intro p refused
  have meaningless : refused ↔ ¬ Meaningful template.toList := Template.not_meaningful_iff.symm
  rw [meaningless, ← Bool.not_eq_true, Template.accepts_regexOf, not_not]
  have other := regexOf_ne_never template
  cases compiled : p.items with
  | none =>
    have hnone : ¬ Meaningful template.toList :=
      Template.items?_eq_none_iff.mp (p.compiled.symm.trans compiled)
    have regex : p.regex = neverRegex := by rw [Pattern.regex, compiled]
    have warning : Event.ofTemplate p = [.meaningless template, .compiled template neverRegex] := by
      rw [Event.ofTemplate, compiled, regex]
      rfl
    simp [regex, hnone, warning, Event.level]
  | some items =>
    have hsome : Meaningful template.toList :=
      Template.exists_items_iff.mp ⟨items, p.compiled.symm.trans compiled⟩
    have regex : p.regex = regexOf template := by
      rw [Pattern.regex, compiled]
      rfl
    have silent : Event.ofTemplate p = [.compiled template (regexOf template)] := by
      rw [Event.ofTemplate, compiled, regex]
      rfl
    simp [regex, hsome, other, silent, Event.level]

end FragmentRouting.Pattern
