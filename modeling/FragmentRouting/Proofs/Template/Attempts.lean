import FragmentRouting.Proofs.Template.Reading

/-!
# Attempts of a match

Matching hands what it has captured to a function for the rest of the match, and tries the next
choice if that function refuses. The same search can be written down as a list:

* `attempts`: every way to read the items at the front of a text, in the order in which matching
  tries them, with the decisions that lead there;
* `matchItems_eq_findSome?`: matching takes the first attempt that the rest of the match accepts.
-/

namespace FragmentRouting.Template

/-- A way to read items at the front of a text. -/
structure Attempt where
  choices : List Choice
  slots : List Slot
  left : List Char
  deriving DecidableEq, Repr

namespace Attempt

/-- The attempt with decisions and captures made before it. -/
def after (first t : Attempt) : Attempt :=
  ⟨first.choices ++ t.choices, first.slots ++ t.slots, t.left⟩

/-- The attempt on a text with more text behind it. -/
def extend (more : List Char) (t : Attempt) : Attempt :=
  { t with left := t.left ++ more }

end Attempt

namespace Atom

/-- The decision that an atom has made by reading `word`. -/
def choices (word : List Char) : Atom → List Choice
  | char _ => []
  | segment => [.segment word]
  | splat => [.splat word]

def attempts (text : List Char) (a : Atom) : List Attempt :=
  (a.lengths text).map fun n =>
    ⟨a.choices (text.take n), a.captures (text.take n), text.drop n⟩

/-- The attempts on an atom read any number of times. Repetitions count as no decision. -/
def manyAttempts (a : Atom) : Nat → List Slot → List Char → List Attempt
  | 0, last, text => [⟨[], last, text⟩]
  | fuel + 1, last, text =>
    ((a.lengths text).flatMap fun n =>
        if (text.take n).isEmpty then [⟨[], a.captures (text.take n), text.drop n⟩]
        else manyAttempts a fuel (a.captures (text.take n)) (text.drop n))
      ++ [⟨[], last, text⟩]

end Atom

mutual

def itemAttempts (text : List Char) : Item → List Attempt
  | .once a => a.attempts text
  | .many a => a.manyAttempts (text.length + 1) a.absent text
  | .optional body =>
    (attempts text body).map (Attempt.after ⟨[.keep], [], []⟩)
      ++ [⟨[.omit], absentSlots body, text⟩]

/-- Every way to read the items at the front of a text, in order of preference. -/
def attempts (text : List Char) : List Item → List Attempt
  | [] => [⟨[], [], text⟩]
  | item :: rest =>
    (itemAttempts text item).flatMap fun t => (attempts t.left rest).map t.after

end

section
variable {α β γ : Type}

theorem findSome?_flatMap (f : α → List β) (g : β → Option γ) (xs : List α) :
    (xs.flatMap f).findSome? g = xs.findSome? fun a => (f a).findSome? g := by
  induction xs with
  | nil => rfl
  | cons x xs ih =>
    rw [List.flatMap_cons, List.findSome?_append, List.findSome?_cons, ih]
    cases (f x).findSome? g <;> rfl

end

theorem Atom.reading_eq_findSome? {β : Type} (text : List Char)
    (next : List Slot → List Char → Option β) (a : Atom) :
    (a.reading text fun word left => next (a.captures word) left) =
      (a.attempts text).findSome? fun t => next t.slots t.left := by
  simp only [Atom.reading, Atom.attempts, List.findSome?_map, Function.comp_def]

theorem Atom.readingMany_eq_findSome? {β : Type} (a : Atom)
    (next : List Slot → List Char → Option β) (fuel : Nat) (last : List Slot)
    (text : List Char) :
    a.readingMany next fuel last text =
      (a.manyAttempts fuel last text).findSome? fun t => next t.slots t.left := by
  induction fuel generalizing last text with
  | zero => simp [Atom.readingMany, Atom.manyAttempts]
  | succ fuel ih =>
    simp only [Atom.readingMany, Atom.manyAttempts, Atom.reading, List.findSome?_append,
      findSome?_flatMap, List.findSome?_singleton, Option.orElse_eq_orElse, Option.orElse_eq_or]
    congr 2
    funext n
    split
    · simp
    · exact ih _ _

mutual

theorem matchItem_eq_findSome? {β : Type} (text : List Char)
    (next : List Slot → List Char → Option β) (item : Item) :
    matchItem text next item =
      (itemAttempts text item).findSome? fun t => next t.slots t.left := by
  cases item with
  | once a => exact Atom.reading_eq_findSome? text next a
  | many a => exact Atom.readingMany_eq_findSome? a next _ _ _
  | optional body =>
    simp only [matchItem, itemAttempts, List.findSome?_append, List.findSome?_map,
      Function.comp_def, List.findSome?_singleton, Attempt.after, List.nil_append,
      Option.orElse_eq_orElse, Option.orElse_eq_or]
    rw [matchItems_eq_findSome? text next body]

/-- Matching takes the first attempt that the rest of the match accepts. -/
theorem matchItems_eq_findSome? {β : Type} (text : List Char)
    (next : List Slot → List Char → Option β) (items : List Item) :
    matchItems text next items =
      (attempts text items).findSome? fun t => next t.slots t.left := by
  cases items with
  | nil => simp [matchItems, attempts]
  | cons item rest =>
    simp only [matchItems, attempts, findSome?_flatMap, List.findSome?_map, Function.comp_def,
      Attempt.after]
    rw [matchItem_eq_findSome? text _ item]
    congr 1
    funext t
    exact matchItems_eq_findSome? t.left _ rest

end

/-- What the whole match makes of an attempt: its captures, if the text left is a query. -/
def Attempt.captures? (t : Attempt) : Option Captures :=
  (query? t.left).map fun query => ⟨t.slots, query⟩

theorem match?_eq_findSome? (items : List Item) (fragment : String) :
    match? items fragment = (attempts fragment.toList items).findSome? Attempt.captures? :=
  matchItems_eq_findSome? fragment.toList _ items

end FragmentRouting.Template
