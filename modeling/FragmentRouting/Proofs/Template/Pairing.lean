import FragmentRouting.Proofs.Template.Rewriting

/-!
# Pairs of parentheses

The positions of the parentheses with a partner are found in the text of a template, and its groups
in the trees of its tokens. Both tell the same pairs:

* `of_mem_partners`: only parentheses have partners;
* `samePairs`: the positions of partners are those of the groups, by an induction on the tokens that
  keeps the groups that are open and the positions at which they were opened in step;
* `toList_regexOf`: so a regular expression has the text of the tokens of its template, each
  rewritten by itself, and with the groups of the trees.
-/

namespace FragmentRouting.Template

open Text (isWord)

/-! ## Positions of partners -/

def IsParenthesis (c : Char) : Prop :=
  c = '(' ∨ c = ')'

theorem partners_opening (position : Nat) (opened : List Nat) (rest : List Char) :
    partners position opened ('(' :: rest) = partners (position + 1) (position :: opened) rest := by
  simp [partners]

theorem partners_stray (position : Nat) (rest : List Char) :
    partners position [] (')' :: rest) = partners (position + 1) [] rest := by
  simp [partners]

theorem partners_closing (position first : Nat) (others : List Nat) (rest : List Char) :
    partners position (first :: others) (')' :: rest) =
      first :: position :: partners (position + 1) others rest := by
  simp [partners]

theorem partners_append {word : List Char} (h : ∀ c ∈ word, ¬ IsParenthesis c) (position : Nat)
    (opened : List Nat) (rest : List Char) :
    partners position opened (word ++ rest) = partners (position + word.length) opened rest := by
  induction word generalizing position with
  | nil => rfl
  | cons c word ih =>
    obtain ⟨hc, hword⟩ := List.forall_mem_cons.mp h
    have plain : c ≠ '(' ∧ c ≠ ')' := not_or.mp hc
    rw [List.cons_append, partners.eq_def]
    dsimp only
    rw [if_neg plain.1, if_neg plain.2, ih hword, List.length_cons, Nat.add_right_comm,
      Nat.add_assoc]

/-- Only parentheses have partners: those that were open, and some of those that follow. -/
theorem of_mem_partners {position i : Nat} {opened : List Nat} {text : List Char}
    (h : i ∈ partners position opened text) :
    i ∈ opened ∨ ∃ k c, i = position + k ∧ text[k]? = some c ∧ IsParenthesis c := by
  induction text generalizing position opened with
  | nil => cases h
  | cons c rest ih =>
    have behind {opened : List Nat} (h : i ∈ partners (position + 1) opened rest) :
        i ∈ opened ∨ ∃ k d, i = position + k ∧ (c :: rest)[k]? = some d ∧ IsParenthesis d := by
      rcases ih h with h | ⟨k, d, rfl, hd, parenthesis⟩
      · exact .inl h
      · exact .inr ⟨k + 1, d, by omega, by simpa using hd, parenthesis⟩
    rw [partners.eq_def] at h
    dsimp only at h
    split at h
    · rename_i hc
      rcases behind h with h | h
      · rcases List.mem_cons.mp h with rfl | h
        · exact .inr ⟨0, c, rfl, rfl, .inl hc⟩
        · exact .inl h
      · exact .inr h
    · split at h
      · rename_i hc
        cases opened with
        | nil => exact behind h
        | cons first others =>
          rcases List.mem_cons.mp h with rfl | h
          · exact .inl List.mem_cons_self
          · rcases List.mem_cons.mp h with rfl | h
            · exact .inr ⟨0, c, rfl, rfl, .inr hc⟩
            · exact (behind h).imp_left (List.mem_cons_of_mem _)
      · exact behind h

/-! ## Rows of trees -/

mutual

/-- The tokens of a tree, and whether they are parentheses with a partner. -/
def Nested.row : Nested Token → List (Token × Bool)
  | .leaf t => [(t, false)]
  | .group body => (.opening, true) :: (rowOf body ++ [(.closing, true)])

def rowOf : List (Nested Token) → List (Token × Bool)
  | [] => []
  | node :: rest => node.row ++ rowOf rest

end

theorem rowOf_append (first rest : List (Nested Token)) :
    rowOf (first ++ rest) = rowOf first ++ rowOf rest := by
  induction first with
  | nil => rfl
  | cons node first ih => simp [rowOf, ih]

/-- The tokens read so far: those of the trees in the innermost group that is open and of those
around it, with the parentheses at the positions `opened` between them. Rows of trees are kept in
reverse. -/
def openRow (paired : List Nat) :
    List (List (Nested Token)) → List (Nested Token) → List Nat → List (Token × Bool)
  | row :: outer, current, position :: opened =>
    openRow paired outer row opened ++
      (.opening, paired.contains position) :: rowOf current.reverse
  | _, current, _ => rowOf current.reverse

/-- Tokens whose source begins at a position, with the parentheses at the positions `paired`. -/
def rowFrom (paired : List Nat) : Nat → List Token → List (Token × Bool)
  | _, [] => []
  | position, t :: rest =>
    (t, (t = .opening || t = .closing) && paired.contains position) ::
      rowFrom paired (position + t.source.length) rest

theorem map_fst_rowFrom (paired : List Nat) (position : Nat) (symbols : List Token) :
    (rowFrom paired position symbols).map Prod.fst = symbols := by
  induction symbols generalizing position with
  | nil => rfl
  | cons t rest ih => rw [rowFrom, List.map_cons, ih]

variable {paired paired' : List Nat} {position : Nat} {opened : List Nat}

theorem openRow_append (outer : List (List (Nested Token))) (first current : List (Nested Token))
    (opened : List Nat) :
    openRow paired outer (first ++ current) opened =
      openRow paired outer current opened ++ rowOf first.reverse := by
  cases outer <;> cases opened <;> simp [openRow, rowOf_append]

theorem openRow_cons (outer : List (List (Nested Token))) (node : Nested Token)
    (current : List (Nested Token)) (opened : List Nat) :
    openRow paired outer (node :: current) opened =
      openRow paired outer current opened ++ node.row := by
  have appended : openRow paired outer ([node] ++ current) opened =
      openRow paired outer current opened ++ rowOf [node].reverse :=
    openRow_append outer [node] current opened
  simpa [rowOf] using appended

theorem openRow_congr (same : ∀ i ∈ opened, paired.contains i = paired'.contains i)
    (outer : List (List (Nested Token))) (current : List (Nested Token)) :
    openRow paired outer current opened = openRow paired' outer current opened := by
  induction opened generalizing outer current with
  | nil => cases outer <;> rfl
  | cons position opened ih =>
    obtain ⟨here, same⟩ := List.forall_mem_cons.mp same
    cases outer with
    | nil => rfl
    | cons row outer => rw [openRow, openRow, here, ih same]

theorem rowFrom_congr (same : ∀ i, position ≤ i → paired.contains i = paired'.contains i)
    (symbols : List Token) :
    rowFrom paired position symbols = rowFrom paired' position symbols := by
  induction symbols generalizing position with
  | nil => rfl
  | cons t rest ih =>
    rw [rowFrom, rowFrom, same position (Nat.le_refl _), ih fun i hi => same i (by omega)]

theorem rowOf_unclosed {outer : List (List (Nested Token))} (same : outer.length = opened.length)
    (current : List (Nested Token)) :
    rowOf (Nested.unclosed .opening current outer) = openRow [] outer current opened := by
  induction outer generalizing current opened with
  | nil =>
    obtain rfl := List.length_eq_zero_iff.mp same.symm
    rfl
  | cons row outer ih =>
    cases opened with
    | nil => cases same
    | cons position opened =>
      rw [Nested.unclosed, ih (Nat.succ.inj same), openRow_append, openRow_cons, openRow,
        List.append_assoc]
      rfl

/-- Whether a token is a parenthesis if its source has any. -/
def Token.Plain (t : Token) : Prop :=
  t = .opening ∨ t = .closing ∨ ∀ c ∈ t.source, ¬ IsParenthesis c

theorem source_opening : Token.opening.source = ['('] := rfl

theorem source_closing : Token.closing.source = [')'] := rfl

/-- The trees and the positions tell the same pairs, if tokens are read with the groups `outer` and
`current` open and with their parentheses at the positions `opened`. -/
def SamePairs (position : Nat) (opened : List Nat) (outer : List (List (Nested Token)))
    (current : List (Nested Token)) (symbols : List Token) : Prop :=
  let paired := partners position opened (symbols.flatMap Token.source)
  rowOf (Nested.nestFrom .opening .closing outer current symbols) =
    openRow paired outer current opened ++ rowFrom paired position symbols

section
variable {outer : List (List (Nested Token))} {row current : List (Nested Token)}
  {rest : List Token} {first : Nat} {others : List Nat}

theorem samePairs_nil (same : outer.length = opened.length) (current : List (Nested Token)) :
    SamePairs position opened outer current [] := by
  rw [SamePairs, Nested.nestFrom, rowOf_unclosed same]
  simp [partners, rowFrom]

theorem samePairs_opening
    (h : SamePairs (position + 1) (position :: opened) (current :: outer) [] rest) :
    SamePairs position opened outer current (.opening :: rest) := by
  have read : Nested.nestFrom .opening .closing outer current (.opening :: rest) =
      Nested.nestFrom .opening .closing (current :: outer) [] rest := by
    simp [Nested.nestFrom]
  rw [SamePairs, read, h, List.flatMap_cons, source_opening, List.singleton_append,
    partners_opening, openRow, rowFrom, List.append_assoc]
  simp [rowOf, source_opening]

/-- A closing parenthesis outside all groups has no partner, as later ones have theirs behind it. -/
theorem samePairs_stray (h : SamePairs (position + 1) [] [] (.leaf .closing :: current) rest) :
    SamePairs position [] [] current (.closing :: rest) := by
  have read : Nested.nestFrom .opening .closing [] current (.closing :: rest) =
      Nested.nestFrom .opening .closing [] (.leaf .closing :: current) rest := by
    simp [Nested.nestFrom]
  have stray : (partners (position + 1) [] (rest.flatMap Token.source)).contains position =
      false := by
    rw [← Bool.not_eq_true, List.contains_iff_mem]
    intro found
    rcases of_mem_partners found with found | ⟨k, c, hk, -⟩
    · cases found
    · omega
  rw [SamePairs, read, h, List.flatMap_cons, source_closing, List.singleton_append,
    partners_stray, openRow_cons, rowFrom, stray]
  simp [source_closing, Nested.row]

/-- A new pair is told from all others by its two positions. -/
theorem samePairs_closing (below : ∀ i ∈ others, i < first) (hfirst : first < position)
    (h : SamePairs (position + 1) others outer (.group current.reverse :: row) rest) :
    SamePairs position (first :: others) (row :: outer) current (.closing :: rest) := by
  have read : Nested.nestFrom .opening .closing (row :: outer) current (.closing :: rest) =
      Nested.nestFrom .opening .closing outer (.group current.reverse :: row) rest := by
    simp [Nested.nestFrom]
  rw [SamePairs, read, h, List.flatMap_cons, source_closing, List.singleton_append,
    partners_closing, openRow_cons, openRow, rowFrom]
  generalize partners (position + 1) others (rest.flatMap Token.source) = inner
  have other {i : Nat} (hne : i ≠ first) (hpos : i ≠ position) :
      inner.contains i = (first :: position :: inner).contains i := by
    simp [hne, hpos]
  have before : ∀ i ∈ others, inner.contains i = (first :: position :: inner).contains i := by
    intro i hi
    have := below i hi
    exact other (by omega) (by omega)
  have behind : ∀ i, position + 1 ≤ i →
      inner.contains i = (first :: position :: inner).contains i := by
    intro i hi
    exact other (by omega) (by omega)
  rw [openRow_congr before, rowFrom_congr behind]
  simp [Nested.row, source_closing]

theorem samePairs_plain {t : Token} (opens : t ≠ .opening) (closes : t ≠ .closing)
    (word : ∀ c ∈ t.source, ¬ IsParenthesis c)
    (h : SamePairs (position + t.source.length) opened outer (.leaf t :: current) rest) :
    SamePairs position opened outer current (t :: rest) := by
  have read : Nested.nestFrom .opening .closing outer current (t :: rest) =
      Nested.nestFrom .opening .closing outer (.leaf t :: current) rest := by
    simp [Nested.nestFrom, opens, closes]
  rw [SamePairs, read, h, List.flatMap_cons, partners_append word, openRow_cons, rowFrom]
  simp [opens, closes, Nested.row]

end

/-- Trees and positions tell the same pairs. The positions of the parentheses that are open
decrease, so that none of them is met again. -/
theorem samePairs {symbols : List Token} (plain : ∀ t ∈ symbols, t.Plain)
    (sorted : (position :: opened).Pairwise (· > ·)) {outer : List (List (Nested Token))}
    (same : outer.length = opened.length) (current : List (Nested Token)) :
    SamePairs position opened outer current symbols := by
  induction symbols generalizing position opened outer current with
  | nil => exact samePairs_nil same current
  | cons t rest ih =>
    obtain ⟨ht, hrest⟩ := List.forall_mem_cons.mp plain
    obtain ⟨above, decreasing⟩ := List.pairwise_cons.mp sorted
    by_cases opens : t = .opening
    · subst opens
      have next : ((position + 1) :: position :: opened).Pairwise (· > ·) := by
        refine List.pairwise_cons.mpr ⟨?_, sorted⟩
        intro i hi
        rcases List.mem_cons.mp hi with rfl | hi
        · exact Nat.lt_succ_self _
        · exact Nat.lt_succ_of_lt (above i hi)
      have longer : (current :: outer).length = (position :: opened).length :=
        congrArg Nat.succ same
      exact samePairs_opening (ih hrest next longer [])
    by_cases closes : t = .closing
    · subst closes
      cases opened with
      | nil =>
        obtain rfl := List.length_eq_zero_iff.mp same
        exact samePairs_stray (ih hrest (List.pairwise_singleton _ _) rfl _)
      | cons first others =>
        obtain ⟨hfirst, habove⟩ := List.forall_mem_cons.mp above
        obtain ⟨below, sortedOthers⟩ := List.pairwise_cons.mp decreasing
        cases outer with
        | nil => cases same
        | cons row outer =>
          have next : ((position + 1) :: others).Pairwise (· > ·) := by
            refine List.pairwise_cons.mpr ⟨?_, sortedOthers⟩
            intro i hi
            exact Nat.lt_succ_of_lt (habove i hi)
          exact samePairs_closing below hfirst (ih hrest next (Nat.succ.inj same) _)
    have word : ∀ c ∈ t.source, ¬ IsParenthesis c := (ht.resolve_left opens).resolve_left closes
    have next : ((position + t.source.length) :: opened).Pairwise (· > ·) := by
      refine List.pairwise_cons.mpr ⟨?_, decreasing⟩
      intro i hi
      exact Nat.lt_of_lt_of_le (above i hi) (Nat.le_add_right _ _)
    exact samePairs_plain opens closes word (ih hrest next same _)

/-! ## The text of a row -/

/-- Characters at positions without a partner stay as they are. -/
theorem flatMap_unpaired {word : List Char}
    (h : ∀ k c, word[k]? = some c → paired.contains (position + k) = false) :
    (word.zipIdx position).flatMap (fun c => optionalGroup c.1 (paired.contains c.2)) = word := by
  induction word generalizing position with
  | nil => rfl
  | cons c word ih =>
    have here : paired.contains position = false := h 0 c rfl
    have behind : ∀ k d, word[k]? = some d → paired.contains (position + 1 + k) = false := by
      intro k d hd
      rw [Nat.add_assoc, Nat.add_comm 1]
      exact h (k + 1) d (by simpa using hd)
    rw [List.zipIdx_cons, List.flatMap_cons, ih behind, here]
    rfl

theorem pairedText_plain {t : Token} (opens : t ≠ .opening) (closes : t ≠ .closing)
    (isPaired : Bool) : pairedText (marked ':') (marked '*') (t, isPaired) = t.source := by
  cases t with
  | opening => exact absurd rfl opens
  | closing => exact absurd rfl closes
  | char c | segment name | splat name | star => rfl

/-- Making groups of the parentheses in the source of tokens gives the text of their row. -/
theorem rowText_rowFrom {symbols : List Token}
    (plain : ∀ t ∈ symbols, t.Plain)
    (h : ∀ k c, (symbols.flatMap Token.source)[k]? = some c →
      paired.contains (position + k) = true → IsParenthesis c) :
    rowText (marked ':') (marked '*') (rowFrom paired position symbols) =
      ((symbols.flatMap Token.source).zipIdx position).flatMap
        fun c => optionalGroup c.1 (paired.contains c.2) := by
  induction symbols generalizing position with
  | nil => rfl
  | cons t rest ih =>
    obtain ⟨ht, hrest⟩ := List.forall_mem_cons.mp plain
    rw [List.flatMap_cons] at h
    have behind : ∀ k c, (rest.flatMap Token.source)[k]? = some c →
        paired.contains (position + t.source.length + k) = true → IsParenthesis c := by
      intro k c hc
      rw [Nat.add_assoc]
      apply h
      rw [List.getElem?_append_right (Nat.le_add_right _ _), Nat.add_sub_cancel_left, hc]
    rw [rowFrom, rowText_cons, ih hrest behind, List.flatMap_cons, List.zipIdx_append,
      List.flatMap_append]
    congr 1
    by_cases opens : t = .opening
    · subst opens
      simp [source_opening, pairedText]
    · by_cases closes : t = .closing
      · subst closes
        simp [source_closing, pairedText]
      · have word : ∀ c ∈ t.source, ¬ IsParenthesis c := (ht.resolve_left opens).resolve_left closes
        have unpaired : ∀ k c, t.source[k]? = some c →
            paired.contains (position + k) = false := by
          intro k c hc
          rw [← Bool.not_eq_true]
          intro partner
          obtain ⟨hk, -⟩ := List.getElem?_eq_some_iff.mp hc
          have found : (t.source ++ rest.flatMap Token.source)[k]? = some c := by
            rw [List.getElem?_append_left hk, hc]
          exact word c (List.mem_of_getElem? hc) (h k c found partner)
        rw [flatMap_unpaired unpaired, pairedText_plain opens closes]

/-! ## The regular expression -/

theorem not_isParenthesis_of_isWord {c : Char} (h : isWord c = true) : ¬ IsParenthesis c := by
  rintro (rfl | rfl)
  · exact absurd rfl (ne_mark_of_isWord h).1
  · rw [not_isWord_closing] at h
    cases h

/-- Only parentheses have parentheses in their source. -/
theorem Token.Proper.plain {t : Token} (h : t.Proper) : t.Plain := by
  have named (mark : Char) (hmark : ¬ IsParenthesis mark) (name : String)
      (hname : ∀ c ∈ name.toList, isWord c = true) :
      ∀ c ∈ marked mark name, ¬ IsParenthesis c :=
    List.forall_mem_cons.mpr ⟨hmark, fun c hc => not_isParenthesis_of_isWord (hname c hc)⟩
  have colon : ¬ IsParenthesis ':' := by
    rintro (h | h) <;> cases h
  have asterisk : ¬ IsParenthesis '*' := by
    rintro (h | h) <;> cases h
  cases t with
  | opening => exact .inl rfl
  | closing => exact .inr (.inl rfl)
  | star => exact .inr (.inr (List.forall_mem_singleton.mpr asterisk))
  | segment name => exact .inr (.inr (named ':' colon name h.2))
  | splat name => exact .inr (.inr (named '*' asterisk name h.2))
  | char c =>
    refine .inr (.inr ?_)
    have other : ¬ IsParenthesis c := not_or.mpr h.2
    have backslash : ¬ IsParenthesis '\\' := by
      rintro (h | h) <;> cases h
    intro d hd
    change d ∈ escaped c at hd
    unfold escaped at hd
    split at hd
    · rcases List.mem_cons.mp hd with rfl | hd
      · exact backslash
      · exact List.mem_singleton.mp hd ▸ other
    · exact List.mem_singleton.mp hd ▸ other

theorem plain_tokens {template : String} : ∀ t ∈ tokens template, t.Plain := fun t ht =>
  ((readable_tokensFrom 0 template.toList).proper t ht).plain

/-- The tokens of a template, and which of them are parentheses with a partner. -/
def templateRow (template : String) : List (Token × Bool) :=
  rowOf (nodes template)

theorem templateRow_eq (template : String) :
    templateRow template =
      rowFrom (partners 0 [] ((tokens template).flatMap Token.source)) 0 (tokens template) := by
  have sorted : [0].Pairwise (· > ·) := List.pairwise_singleton _ _
  exact samePairs plain_tokens sorted rfl []

theorem map_fst_templateRow (template : String) :
    (templateRow template).map Prod.fst = tokens template := by
  rw [templateRow_eq, map_fst_rowFrom]

theorem readable_templateRow (template : String) :
    Readable ((templateRow template).map Prod.fst) := by
  rw [map_fst_templateRow]
  exact readable_tokensFrom 0 template.toList

theorem optionalGroups_escaped (template : String) :
    optionalGroups (rewrite escape? template.toList) =
      rowText (marked ':') (marked '*') (templateRow template) := by
  have source : rewrite escape? template.toList = (tokens template).flatMap Token.source := by
    rw [rewrite_escape, tokens, source_tokensFrom]
    rfl
  rw [source, templateRow_eq, rowText_rowFrom plain_tokens]
  · rfl
  · intro k c hc partner
    have found := of_mem_partners (List.contains_iff_mem.mp partner)
    rcases found with h | ⟨k', c', same, hc', parenthesis⟩
    · cases h
    · obtain rfl : k = k' := by omega
      rw [hc] at hc'
      cases hc'
      exact parenthesis

/-- Rewriting a template rewrites each of its tokens by itself. -/
theorem toList_regexOf (template : String) :
    (regexOf template).toList =
      '^' :: (rowText (fun _ => segmentGroup.toList) (fun _ => splatGroup.toList)
        (templateRow template) ++ "(\\?.*)?\\Z".toList) := by
  have readable := readable_templateRow template
  have body : regexOf template = "^" ++ String.ofList (rowText (fun _ => segmentGroup.toList)
      (fun _ => splatGroup.toList) (templateRow template)) ++ queryRegex ++ "\\Z" := by
    rw [regexOf, optionalGroups_escaped, rewrite_segments readable, rewrite_splats readable]
  rw [body]
  simp [queryRegex]

end FragmentRouting.Template
