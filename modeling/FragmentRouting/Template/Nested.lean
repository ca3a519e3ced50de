/-!
# Nested brackets

A row of symbols, two of which are an opening and a closing bracket, is read as a row of trees.
Each bracket that has a partner becomes a group with what stands between the two; a bracket
without a partner stays a leaf.
-/

namespace FragmentRouting.Template

inductive Nested (α : Type) where
  | leaf (a : α)
  | group (body : List (Nested α))

namespace Nested

variable {α : Type} [DecidableEq α]

/-- The trees once no symbol is left. The groups still open, innermost first, have no partner for
their opening bracket. Rows of trees are kept in reverse. -/
def unclosed (opening : α) (current : List (Nested α)) :
    List (List (Nested α)) → List (Nested α)
  | [] => current.reverse
  | outer :: rest => unclosed opening (current ++ .leaf opening :: outer) rest

/-- The trees of a row of symbols, given the trees read so far in the innermost group and in those
around it, in reverse. -/
def nestFrom (opening closing : α) :
    List (List (Nested α)) → List (Nested α) → List α → List (Nested α)
  | open_, current, [] => unclosed opening current open_
  | open_, current, a :: rest =>
    if a = opening then nestFrom opening closing (current :: open_) [] rest
    else if a = closing then
      match open_ with
      | [] => nestFrom opening closing [] (.leaf closing :: current) rest
      | outer :: others =>
        nestFrom opening closing others (.group current.reverse :: outer) rest
    else nestFrom opening closing open_ (.leaf a :: current) rest

/-- The trees of a row of symbols. -/
def nest (opening closing : α) (symbols : List α) : List (Nested α) :=
  nestFrom opening closing [] [] symbols

end Nested

end FragmentRouting.Template
