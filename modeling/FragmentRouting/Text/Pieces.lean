/-!
# Pieces of a text

A text is cut at each occurrence of a separator, from the left and without overlap. Joining the
pieces with the separator gives the text back.
-/

namespace FragmentRouting.Text

/-- The pieces of a text, where the first `skipped` characters belong to a separator already
found. -/
def piecesFrom (separator : List Char) : Nat → List Char → List (List Char)
  | _, [] => [[]]
  | skipped + 1, _ :: rest => piecesFrom separator skipped rest
  | 0, c :: rest =>
    if separator.isPrefixOf (c :: rest) then
      [] :: piecesFrom separator (separator.length - 1) rest
    else (piecesFrom separator 0 rest).modifyHead (c :: ·)

/-- The pieces of a text between the occurrences of a separator. The separator is not empty. -/
def pieces (separator text : List Char) : List (List Char) :=
  piecesFrom separator 0 text

/-- The text with every occurrence of `old` written as `new`. -/
def replace (old new text : List Char) : List Char :=
  new.intercalate (pieces old text)

/-- The text before the first `mark`, and the text after it, which is empty if there is none. -/
def cutAt (mark : Char) : List Char → List Char × List Char
  | [] => ([], [])
  | c :: rest =>
    if c = mark then ([], rest)
    else let (before, after) := cutAt mark rest; (c :: before, after)

theorem pieces_nil (separator : List Char) : pieces separator [] = [[]] := rfl

theorem piecesFrom_ne_nil (separator text : List Char) (skipped : Nat) :
    piecesFrom separator skipped text ≠ [] := by
  induction text generalizing skipped with
  | nil => cases skipped <;> simp [piecesFrom]
  | cons c rest ih =>
    cases skipped with
    | succ k => simpa [piecesFrom] using ih k
    | zero =>
      simp only [piecesFrom]
      split
      · simp
      · cases h : piecesFrom separator 0 rest with
        | nil => exact absurd h (ih 0)
        | cons p ps => simp

theorem pieces_ne_nil (separator text : List Char) : pieces separator text ≠ [] :=
  piecesFrom_ne_nil separator text 0

theorem piecesFrom_drop (separator text : List Char) (skipped : Nat) :
    piecesFrom separator skipped text = pieces separator (text.drop skipped) := by
  induction text generalizing skipped with
  | nil => cases skipped <;> rfl
  | cons c rest ih =>
    cases skipped with
    | zero => rfl
    | succ k => simpa [piecesFrom] using ih k

theorem pieces_append {separator : List Char} (nonempty : separator ≠ []) (rest : List Char) :
    pieces separator (separator ++ rest) = [] :: pieces separator rest := by
  cases separator with
  | nil => exact absurd rfl nonempty
  | cons d ds =>
    have found : (d :: ds).isPrefixOf (d :: (ds ++ rest)) = true := by
      rw [List.isPrefixOf_iff_prefix]
      exact ⟨rest, rfl⟩
    simp only [pieces, List.cons_append, piecesFrom, found, if_true, List.length_cons,
      Nat.add_sub_cancel]
    rw [piecesFrom_drop]
    simp [pieces]

theorem pieces_cons {separator rest : List Char} {c : Char} (h : ¬ separator <+: c :: rest) :
    pieces separator (c :: rest) = (pieces separator rest).modifyHead (c :: ·) := by
  have notFound : separator.isPrefixOf (c :: rest) = false := by
    rw [← Bool.not_eq_true, List.isPrefixOf_iff_prefix]
    exact h
  simp [pieces, piecesFrom, notFound]

theorem intercalate_pieces_of_length_le {separator : List Char} (nonempty : separator ≠ [])
    (bound : Nat) (text : List Char) (h : text.length ≤ bound) :
    separator.intercalate (pieces separator text) = text := by
  induction bound generalizing text with
  | zero =>
    rw [List.length_eq_zero_iff.mp (Nat.le_zero.mp h)]
    simp [pieces_nil]
  | succ bound ih =>
    cases text with
    | nil => simp [pieces_nil]
    | cons c rest =>
      by_cases found : separator <+: c :: rest
      · obtain ⟨after, hafter⟩ := found
        have shorter : after.length ≤ bound := by
          have := List.length_pos_iff.mpr nonempty
          have := congrArg List.length hafter
          simp only [List.length_append] at this
          omega
        rw [← hafter, pieces_append nonempty,
          List.intercalate_cons_of_ne_nil (pieces_ne_nil separator after), ih after shorter,
          List.nil_append]
      · have ih := ih rest (Nat.le_of_succ_le_succ h)
        rw [pieces_cons found]
        cases hp : pieces separator rest with
        | nil => exact absurd hp (pieces_ne_nil separator rest)
        | cons p ps =>
          rw [hp] at ih
          cases ps with
          | nil => simpa using ih
          | cons q qs =>
            simp only [List.modifyHead_cons, List.intercalate_cons_cons] at ih ⊢
            simp [ih]

/-- Joining the pieces with the separator gives the text back. -/
theorem intercalate_pieces {separator : List Char} (nonempty : separator ≠ [])
    (text : List Char) : separator.intercalate (pieces separator text) = text :=
  intercalate_pieces_of_length_le nonempty text.length text (Nat.le_refl _)

/-- Cutting at a single character is cutting a list at an element. -/
theorem pieces_singleton (mark : Char) (text : List Char) :
    pieces [mark] text = text.splitOn mark := by
  induction text with
  | nil => simp [pieces_nil, List.splitOn_nil]
  | cons c rest ih =>
    rw [List.splitOn_cons_eq_if_modifyHead, ← ih]
    simp only [pieces, piecesFrom, List.isPrefixOf, Bool.and_true, List.length_singleton,
      Nat.sub_self]
    by_cases h : c = mark
    · simp [h]
    · have h' : ¬ mark = c := fun e => h e.symm
      simp [h, h']

end FragmentRouting.Text
