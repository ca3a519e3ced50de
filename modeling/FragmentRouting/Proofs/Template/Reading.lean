import FragmentRouting.Template.Matching
import FragmentRouting.Proofs.Template.WellFormed

/-!
# Readings of a template

What a template says about a path, told from its characters and not from what it is compiled to. A
reading keeps or omits each group, gives each name that it keeps a word, and so spells a path:

* `Reading template choices slots path`: the decisions from left to right, a slot for each name of
  the template, and the path;
* `Denotes template path`: some reading spells the path;
* `Preferred`: of two rows of decisions, the first is preferred where they part.
-/

namespace FragmentRouting.Template

open Text (isWord)

/-- One decision in reading a template: whether a group is there, and which word a name takes. -/
inductive Choice where
  | keep
  | omit
  | segment (word : List Char)
  | splat (word : List Char)
  deriving DecidableEq, Repr

/-- The word that a decision gives to a name. -/
def Choice.word? : Choice → Option (List Char)
  | segment word | splat word => some word
  | _ => none

/-- A group is rather kept than omitted, a segment rather long and a splat rather short. -/
inductive Choice.Better : Choice → Choice → Prop
  | keep : Better .keep .omit
  | segment {longer shorter : List Char} (h : shorter.length < longer.length) :
      Better (.segment longer) (.segment shorter)
  | splat {shorter longer : List Char} (h : shorter.length < longer.length) :
      Better (.splat shorter) (.splat longer)

/-- Where two rows of decisions part for the first time, the first row takes the better one. -/
def Preferred (first second : List Choice) : Prop :=
  ∃ common better worse rest rest', first = common ++ better :: rest ∧
    second = common ++ worse :: rest' ∧ Choice.Better better worse

/-- Whether a character stands for itself before `rest`. -/
def IsLiteral (c : Char) (rest : List Char) : Prop :=
  c ≠ '(' ∧ c ≠ ')' ∧ c ≠ '*' ∧ ¬ (c = ':' ∧ startsWord rest = true)

/-- An empty slot for each name in a part of a template that is left out. -/
def emptySlots (text : List Char) : List Slot :=
  ((tokensFrom 0 text).filterMap Token.name?).map fun _ => none

/-- The readings of a template. A name ends with the last word character in a row. Nothing is
decided inside a group that is omitted. -/
inductive Reading : List Char → List Choice → List Slot → List Char → Prop
  | nil : Reading [] [] [] []
  | literal {c : Char} {rest path : List Char} {choices : List Choice} {slots : List Slot}
      (plain : IsLiteral c rest) (h : Reading rest choices slots path) :
      Reading (c :: rest) choices slots (c :: path)
  | segment {rest word path : List Char} {choices : List Choice} {slots : List Slot}
      (named : startsWord rest = true) (nonempty : word ≠ [])
      (oneSegment : '/' ∉ word) (noQuery : '?' ∉ word)
      (h : Reading (rest.dropWhile isWord) choices slots path) :
      Reading (':' :: rest) (.segment word :: choices) (some (String.ofList word) :: slots)
        (word ++ path)
  | splat {rest word path : List Char} {choices : List Choice} {slots : List Slot}
      (named : startsWord rest = true) (noQuery : '?' ∉ word)
      (h : Reading (rest.dropWhile isWord) choices slots path) :
      Reading ('*' :: rest) (.splat word :: choices) (some (String.ofList word) :: slots)
        (word ++ path)
  | kept {body rest inner path : List Char} {choices choices' : List Choice}
      {slots slots' : List Slot} (hbody : Reading body choices slots inner)
      (h : Reading rest choices' slots' path) :
      Reading ('(' :: (body ++ ')' :: rest)) (.keep :: (choices ++ choices')) (slots ++ slots')
        (inner ++ path)
  | omitted {body rest path : List Char} {choices : List Choice} {slots : List Slot}
      (hbody : WellFormed body) (h : Reading rest choices slots path) :
      Reading ('(' :: (body ++ ')' :: rest)) (.omit :: choices) (emptySlots body ++ slots) path

/-- Some reading of the template spells the path. -/
def Denotes (template path : List Char) : Prop :=
  ∃ choices slots, Reading template choices slots path

/-! ## Preference -/

theorem preferred_append {first second : List Choice} (h : Preferred first second)
    (more more' : List Choice) : Preferred (first ++ more) (second ++ more') := by
  obtain ⟨common, better, worse, rest, rest', rfl, rfl, hb⟩ := h
  exact ⟨common, better, worse, rest ++ more, rest' ++ more', by simp, by simp, hb⟩

theorem preferred_prefix (common : List Choice) {first second : List Choice}
    (h : Preferred first second) : Preferred (common ++ first) (common ++ second) := by
  obtain ⟨common', better, worse, rest, rest', rfl, rfl, hb⟩ := h
  exact ⟨common ++ common', better, worse, rest, rest', by simp, by simp, hb⟩

theorem preferred_of_better {better worse : Choice} (h : Choice.Better better worse)
    (rest rest' : List Choice) : Preferred (better :: rest) (worse :: rest') :=
  ⟨[], better, worse, rest, rest', rfl, rfl, h⟩

theorem filterMap_emptySlots (text : List Char) : (emptySlots text).filterMap id = [] := by
  simp [emptySlots]

namespace Reading

variable {template path : List Char} {choices : List Choice} {slots : List Slot}

/-- The captured words are the words decided on, in order. -/
theorem words (h : Reading template choices slots path) :
    slots.filterMap id = (choices.filterMap Choice.word?).map String.ofList := by
  induction h with
  | nil => rfl
  | literal _ _ ih => exact ih
  | segment _ _ _ _ _ ih | splat _ _ _ ih =>
    exact congrArg (String.ofList _ :: ·) ih
  | kept _ _ ih ih' =>
    simp only [List.filterMap_cons, List.filterMap_append, Choice.word?, List.map_append, ih, ih']
  | omitted _ _ ih =>
    simp only [List.filterMap_cons, List.filterMap_append, Choice.word?, filterMap_emptySlots,
      List.nil_append, ih]

/-- A path has a question mark only where the template has one. -/
theorem noQuery (h : Reading template choices slots path) (plain : '?' ∉ template) :
    '?' ∉ path := by
  induction h with
  | nil => exact plain
  | literal _ _ ih =>
    simp only [List.mem_cons, not_or] at plain ⊢
    exact ⟨plain.1, ih plain.2⟩
  | segment _ _ _ hword _ ih =>
    simp only [List.mem_cons, not_or] at plain
    have hpath := ih fun hm => plain.2 (List.dropWhile_subset _ hm)
    simp [hword, hpath]
  | splat _ hword _ ih =>
    simp only [List.mem_cons, not_or] at plain
    have hpath := ih fun hm => plain.2 (List.dropWhile_subset _ hm)
    simp [hword, hpath]
  | kept _ _ ih ih' =>
    simp only [List.mem_cons, List.mem_append, not_or] at plain ⊢
    exact ⟨ih plain.2.1, ih' plain.2.2.2⟩
  | omitted _ _ ih =>
    simp only [List.mem_cons, List.mem_append, not_or] at plain
    exact ih plain.2.2.2

end Reading

end FragmentRouting.Template
