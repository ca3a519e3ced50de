import FragmentRouting.Extraction
import FragmentRouting.Proofs.Query.Repetition
import FragmentRouting.Proofs.Template.Language

/-!
# Filling a template

A template whose pieces stand between slashes is filled by writing an encoded value in the place of
each name. Matching the result gives the values back:

* `Piece`: a literal text, a segment or a splat, the latter two with the value to write;
* `exists_reading_filled`, `slots_of_reading`: the filled template has a reading, and every reading
  of it captures the encoded values;
* `captures?_of_reading`: a pattern captures what all readings of a path capture;
* `argumentsFor_filled`: the arguments of the filled template are the values.
-/

namespace FragmentRouting

open Text (isWord)
open Query (fieldText)

/-! ## Encoded values -/

theorem isMark_none : Delimiter.IsMark none none :=
  Query.isMark_of_off rfl

/-- An encoded value lies inside one segment of a path. -/
theorem not_mem_fieldText (value : String) :
    '/' ∉ (fieldText (.text value) none).toList ∧ '?' ∉ (fieldText (.text value) none).toList := by
  constructor
  · intro slash
    rw [fieldText, isMark_none.encode_eq, String.toList_ofList] at slash
    obtain ⟨c, -, hc⟩ := List.mem_flatMap.mp slash
    rcases Percent.mem_encodeCharWith hc with ⟨plain, -⟩ | percent | digit
    · exact absurd plain (by decide)
    · exact absurd percent (by decide)
    · exact absurd digit (by decide)
  · intro mark
    exact (isMark_none.encode_marks mark).2 (by decide)

theorem decode_fieldText (value : String) :
    Percent.decode (fieldText (.text value) none) = value :=
  isMark_none.decode_encode value

theorem fieldText_ne_nil {value : String} (h : value ≠ "") :
    (fieldText (.text value) none).toList ≠ [] := by
  intro empty
  exact h ((isMark_none.encode_eq_empty_iff value).mp (String.toList_eq_nil_iff.mp empty))

namespace Template

/-! ## Taking a reading apart -/

namespace Reading

variable {choices : List Choice} {slots : List Slot} {path : List Char}

theorem of_nil (h : Reading [] choices slots path) : slots = [] ∧ path = [] := by
  cases h with
  | nil => exact ⟨rfl, rfl⟩

theorem of_literal {c : Char} {rest : List Char} (plain : IsLiteral c rest)
    (h : Reading (c :: rest) choices slots path) :
    ∃ path', path = c :: path' ∧ Reading rest choices slots path' := by
  obtain ⟨hopen, -, hstar, hcolon⟩ := plain
  cases h with
  | literal _ h => exact ⟨_, rfl, h⟩
  | segment named _ _ _ _ => exact absurd ⟨rfl, named⟩ hcolon
  | splat _ _ _ => exact absurd rfl hstar
  | kept _ _ => exact absurd rfl hopen
  | omitted _ _ => exact absurd rfl hopen

theorem of_segment {rest : List Char} (named : startsWord rest = true)
    (h : Reading (':' :: rest) choices slots path) :
    ∃ word choices' slots' path', path = word ++ path' ∧ '/' ∉ word ∧
      slots = some (String.ofList word) :: slots' ∧
      Reading (rest.dropWhile isWord) choices' slots' path' := by
  cases h with
  | literal plain _ => exact absurd ⟨rfl, named⟩ plain.2.2.2
  | segment _ _ oneSegment _ h => exact ⟨_, _, _, _, rfl, oneSegment, rfl, h⟩

theorem of_splat {rest : List Char} (h : Reading ('*' :: rest) choices slots path) :
    ∃ word choices' slots' path', path = word ++ path' ∧
      slots = some (String.ofList word) :: slots' ∧
      Reading (rest.dropWhile isWord) choices' slots' path' := by
  cases h with
  | literal plain _ => exact absurd rfl plain.2.2.1
  | splat _ _ h => exact ⟨_, _, _, _, rfl, rfl, h⟩

end Reading

/-! ## Pieces -/

/-- What stands between two slashes of a template, and the value to write for a name. -/
inductive Piece where
  | literal (text : String)
  | segment (name value : String)
  | splat (name value : String)
  deriving DecidableEq, Repr

namespace Piece

/-- The piece in a template. -/
def template : Piece → String
  | literal text => text
  | segment name _ => ":" ++ name
  | splat name _ => "*" ++ name

/-- The piece in a path, with its value percent-encoded. -/
def filled : Piece → String
  | literal text => text
  | segment _ value | splat _ value => fieldText (.text value) none

/-- The value of the piece, if it has a name. -/
def value? : Piece → Option String
  | literal _ => none
  | segment _ value | splat _ value => some value

def isSplat : Piece → Bool
  | splat _ _ => true
  | _ => false

/-- A name is a run of word characters. -/
def IsName (name : String) : Prop :=
  name ≠ "" ∧ ∀ c ∈ name.toList, isWord c = true

/-- A literal has no character that means something in a template, and no segment gets the empty
value. -/
def Fits : Piece → Prop
  | literal text => (∀ mark ∈ ['(', ')', '*', '?'], mark ∉ text.toList) ∧
      ∀ c ∈ text.toList, [':', c] <:+: text.toList → isWord c = false
  | segment name value => IsName name ∧ value ≠ ""
  | splat name _ => IsName name

/-- The captures of the piece. -/
def slots (piece : Piece) : List Slot :=
  piece.value?.toList.map fun value => some (fieldText (.text value) none)

end Piece

/-- The template of a row of pieces. -/
def templateOf (pieces : List Piece) : String :=
  "/".intercalate (pieces.map Piece.template)

/-- The path that the template of a row of pieces becomes when it is filled. -/
def filledOf (pieces : List Piece) : String :=
  "/".intercalate (pieces.map Piece.filled)

theorem dropWhile_name {name : String} (h : Piece.IsName name) {rest : List Char}
    (stop : startsWord rest = false) :
    startsWord (name.toList ++ rest) = true ∧
      (name.toList ++ rest).dropWhile isWord = rest := by
  obtain ⟨nonempty, word⟩ := h
  constructor
  · obtain ⟨c, more, hname⟩ := List.exists_cons_of_ne_nil (mt String.toList_eq_nil_iff.mp nonempty)
    rw [hname] at word ⊢
    simpa [startsWord] using word c List.mem_cons_self
  · rw [List.dropWhile_append_of_pos word]
    cases rest with
    | nil => rfl
    | cons c rest =>
      have other : isWord c = false := by simpa [startsWord] using stop
      exact List.dropWhile_cons_of_neg (by simp [other])

/-- Every character of a literal stands for itself, whatever comes behind it but a word. -/
theorem isLiteral_of_fits {c : Char} {text rest : List Char}
    (marks : ∀ mark ∈ ['(', ')', '*', '?'], mark ∉ c :: text)
    (unnamed : ∀ d ∈ c :: text, [':', d] <:+: c :: text → isWord d = false)
    (stop : startsWord rest = false) : IsLiteral c (text ++ rest) := by
  have other : ∀ mark ∈ ['(', ')', '*', '?'], c ≠ mark := by
    rintro mark hmark rfl
    exact marks c hmark List.mem_cons_self
  refine ⟨other '(' (by decide), other ')' (by decide), other '*' (by decide), ?_⟩
  rintro ⟨rfl, named⟩
  cases text with
  | nil => exact absurd named (by simp [stop])
  | cons d text =>
    have named : isWord d = true := by simpa [startsWord] using named
    have := unnamed d (by simp) ⟨[], text, rfl⟩
    rw [named] at this
    cases this

theorem Reading.literals {text rest path : List Char} {choices : List Choice} {slots : List Slot}
    (marks : ∀ mark ∈ ['(', ')', '*', '?'], mark ∉ text)
    (unnamed : ∀ d ∈ text, [':', d] <:+: text → isWord d = false)
    (stop : startsWord rest = false) :
    Reading (text ++ rest) choices slots path ↔
      ∃ path', path = text ++ path' ∧ Reading rest choices slots path' := by
  induction text generalizing path with
  | nil => simp
  | cons c text ih =>
    have plain : IsLiteral c (text ++ rest) := isLiteral_of_fits marks unnamed stop
    have behind (path : List Char) := @ih path
      (fun mark hmark h => marks mark hmark (List.mem_cons_of_mem c h))
      (fun d hd h => unnamed d (List.mem_cons_of_mem c hd) (h.trans (List.suffix_cons c text).isInfix))
    constructor
    · intro h
      obtain ⟨path', rfl, hmore⟩ := Reading.of_literal plain h
      obtain ⟨path, rfl, hrest⟩ := (behind path').mp hmore
      exact ⟨path, rfl, hrest⟩
    · rintro ⟨path, rfl, h⟩
      exact .literal plain ((behind _).mpr ⟨path, rfl, h⟩)

namespace Piece

/-- The captures of the piece when it has read `word`. -/
def captured (word : List Char) : Piece → List Slot
  | literal _ => []
  | segment _ _ | splat _ _ => [some (String.ofList word)]

theorem captured_filled (piece : Piece) : piece.captured piece.filled.toList = piece.slots := by
  cases piece with
  | literal text => rfl
  | segment name value | splat name value => simp [captured, filled, slots, value?]

/-- The piece can read what it is filled with. -/
theorem exists_reading {piece : Piece} (fits : piece.Fits) {rest path : List Char}
    (stop : startsWord rest = false) {choices : List Choice} {slots : List Slot}
    (h : Reading rest choices slots path) :
    ∃ choices', Reading (piece.template.toList ++ rest) choices' (piece.slots ++ slots)
      (piece.filled.toList ++ path) := by
  cases piece with
  | literal text =>
    obtain ⟨marks, unnamed⟩ := fits
    exact ⟨choices, (Reading.literals marks unnamed stop).mpr ⟨path, rfl, h⟩⟩
  | segment name value =>
    obtain ⟨named, behind⟩ := dropWhile_name fits.1 stop
    obtain ⟨noSlash, noQuery⟩ := not_mem_fieldText value
    have read := Reading.segment named (fieldText_ne_nil fits.2) noSlash noQuery (behind.symm ▸ h)
    exact ⟨_, by simpa [template, filled, Piece.slots, value?] using read⟩
  | splat name value =>
    obtain ⟨named, behind⟩ := dropWhile_name fits stop
    have read := Reading.splat named (not_mem_fieldText value).2 (behind.symm ▸ h)
    exact ⟨_, by simpa [template, filled, Piece.slots, value?] using read⟩

/-- What the piece reads ends at the first slash, unless it is a splat or a literal, which reads
itself. -/
theorem of_reading {piece : Piece} (fits : piece.Fits) {rest path : List Char}
    (stop : startsWord rest = false) {choices : List Choice} {slots : List Slot}
    (h : Reading (piece.template.toList ++ rest) choices slots path) :
    ∃ word choices' slots' path', path = word ++ path' ∧ slots = piece.captured word ++ slots' ∧
      Reading rest choices' slots' path' ∧
      (piece.isSplat = false →
        word = piece.filled.toList ∨ '/' ∉ word ∧ '/' ∉ piece.filled.toList) := by
  cases piece with
  | literal text =>
    obtain ⟨marks, unnamed⟩ := fits
    obtain ⟨path', rfl, hrest⟩ := (Reading.literals marks unnamed stop).mp h
    exact ⟨text.toList, choices, slots, path', rfl, rfl, hrest, fun _ => .inl rfl⟩
  | segment name value =>
    obtain ⟨named, behind⟩ := dropWhile_name fits.1 stop
    have whole : Reading (':' :: (name.toList ++ rest)) choices slots path := by
      simpa [template] using h
    obtain ⟨word, choices', slots', path', rfl, noSlash, rfl, hrest⟩ :=
      Reading.of_segment named whole
    rw [behind] at hrest
    exact ⟨word, choices', slots', path', rfl, rfl, hrest,
      fun _ => .inr ⟨noSlash, (not_mem_fieldText value).1⟩⟩
  | splat name value =>
    obtain ⟨named, behind⟩ := dropWhile_name fits stop
    have whole : Reading ('*' :: (name.toList ++ rest)) choices slots path := by
      simpa [template] using h
    obtain ⟨word, choices', slots', path', rfl, rfl, hrest⟩ := Reading.of_splat whole
    rw [behind] at hrest
    exact ⟨word, choices', slots', path', rfl, rfl, hrest, fun splat => by cases splat⟩

end Piece

/-! ## Rows of pieces -/

theorem joined_cons (piece next : String) (rest : List String) :
    ("/".intercalate (piece :: next :: rest)).toList =
      piece.toList ++ '/' :: ("/".intercalate (next :: rest)).toList := by
  simp [String.toList_intercalate]

theorem startsWord_slash (rest : List Char) : startsWord ('/' :: rest) = false := by
  have : isWord '/' = false := by decide
  simpa [startsWord] using this

theorem isLiteral_slash (rest : List Char) : IsLiteral '/' rest := by
  simp [IsLiteral]

/-- The filled template has a reading that captures the encoded values. -/
theorem exists_reading_filled {pieces : List Piece} (fits : ∀ piece ∈ pieces, piece.Fits) :
    ∃ choices, Reading (templateOf pieces).toList choices (pieces.flatMap Piece.slots)
      (filledOf pieces).toList := by
  induction pieces with
  | nil => exact ⟨[], .nil⟩
  | cons piece rest ih =>
    obtain ⟨hpiece, hrest⟩ := List.forall_mem_cons.mp fits
    cases rest with
    | nil =>
      obtain ⟨choices, h⟩ := piece.exists_reading hpiece rfl Reading.nil
      exact ⟨choices, by simpa [templateOf, filledOf] using h⟩
    | cons next rest =>
      obtain ⟨choices, h⟩ := ih hrest
      obtain ⟨choices, h⟩ := piece.exists_reading hpiece (startsWord_slash _)
        (.literal (isLiteral_slash _) h)
      exact ⟨choices, by
        simpa only [templateOf, filledOf, List.map_cons, joined_cons, List.flatMap_cons] using h⟩

theorem cancel_slash {first second more more' : List Char} (hfirst : '/' ∉ first)
    (hsecond : '/' ∉ second) (h : first ++ '/' :: more = second ++ '/' :: more') :
    first = second := by
  have cut := congrArg (Text.cutAt '/') h
  rw [Query.cutAt_append hfirst, Query.cutAt_append hsecond] at cut
  exact congrArg Prod.fst cut

/-- Every reading of the filled template captures the encoded values. The induction cuts the first
piece off at the slash behind it. -/
theorem slots_of_reading {pieces : List Piece} (fits : ∀ piece ∈ pieces, piece.Fits)
    (splatLast : ∀ piece ∈ pieces.dropLast, piece.isSplat = false) {choices : List Choice}
    {slots : List Slot}
    (h : Reading (templateOf pieces).toList choices slots (filledOf pieces).toList) :
    slots = pieces.flatMap Piece.slots := by
  induction pieces generalizing choices slots with
  | nil => exact h.of_nil.1
  | cons piece rest ih =>
    obtain ⟨hpiece, hrest⟩ := List.forall_mem_cons.mp fits
    cases rest with
    | nil =>
      have h : Reading (piece.template.toList ++ []) choices slots piece.filled.toList := by
        simpa [templateOf, filledOf] using h
      obtain ⟨word, _, _, path, hpath, rfl, hnil, -⟩ := piece.of_reading hpiece rfl h
      obtain ⟨rfl, rfl⟩ := hnil.of_nil
      rw [List.append_nil] at hpath
      rw [← hpath, piece.captured_filled]
      simp
    | cons next rest =>
      obtain ⟨noSplat, splatLast⟩ := List.forall_mem_cons.mp splatLast
      simp only [templateOf, filledOf, List.map_cons, joined_cons] at h
      obtain ⟨word, _, _, path, hpath, rfl, hslash, hword⟩ :=
        piece.of_reading hpiece (startsWord_slash _) h
      obtain ⟨path', rfl, hbehind⟩ := hslash.of_literal (isLiteral_slash _)
      have same : piece.filled.toList = word := by
        rcases hword noSplat with same | ⟨inWord, inFilled⟩
        · exact same.symm
        · exact cancel_slash inFilled inWord hpath
      rw [same] at hpath
      obtain rfl := (List.cons.inj (List.append_cancel_left hpath)).2
      rw [← same, piece.captured_filled, List.flatMap_cons, ← ih hrest splatLast hbehind]

theorem noQuery_filledOf {pieces : List Piece} (fits : ∀ piece ∈ pieces, piece.Fits) :
    '?' ∉ (filledOf pieces).toList := by
  have noQuery : ∀ piece ∈ pieces, '?' ∉ piece.filled.toList := by
    intro piece hpiece
    have := fits piece hpiece
    cases piece with
    | literal text => exact this.1 '?' (by decide)
    | segment name value | splat name value => exact (not_mem_fieldText value).2
  clear fits
  induction pieces with
  | nil => simp [filledOf]
  | cons piece rest ih =>
    obtain ⟨hpiece, hrest⟩ := List.forall_mem_cons.mp noQuery
    cases rest with
    | nil => simpa [filledOf] using hpiece
    | cons next rest =>
      have behind := ih hrest
      simp only [filledOf, List.map_cons, joined_cons, List.mem_append, List.mem_cons, not_or]
        at behind ⊢
      exact ⟨hpiece, by decide, behind⟩

/-! ## Captures -/

/-- A pattern captures of a path what all readings of the path capture, if there is one. -/
theorem captures?_of_reading {template path : String} {choices : List Choice} {slots : List Slot}
    (noQuery : '?' ∉ path.toList) (h : Reading template.toList choices slots path.toList)
    (unique : ∀ choices' slots', Reading template.toList choices' slots' path.toList →
      slots' = slots) (named : Option Bool) (config : Config) :
    (Pattern.ofTemplate template named config).captures? path = some ⟨slots, none⟩ := by
  obtain ⟨items, hs, attempted⟩ := h.exists_attempt
  have attempted := attempted []
  rw [List.append_nil] at attempted
  rw [hs.captures?_eq]
  have some_captures : ((attempts path.toList items).findSome? Attempt.captures?).isSome = true :=
    List.findSome?_isSome_iff.mpr ⟨_, attempted, rfl⟩
  obtain ⟨captures, hcaptures⟩ := Option.isSome_iff_exists.mp some_captures
  obtain ⟨t, ht, hcaptured⟩ := List.exists_of_findSome?_eq_some hcaptures
  obtain ⟨hslots, hquery⟩ := Attempt.captures?_eq_some_iff.mp hcaptured
  obtain ⟨read, hread, whole⟩ := hs.mem_attempts_iff.mp ht
  rcases query?_eq_some_iff.mp hquery with ⟨left, none_left⟩ | ⟨more, left, -⟩
  · rw [left, List.append_nil] at whole
    rw [← whole] at hread
    rw [hcaptures, ← unique _ _ hread, hslots, ← none_left]
  · rw [whole, left] at noQuery
    exact absurd (List.mem_append_right _ List.mem_cons_self) noQuery

end Template

namespace Pattern

open Template (Piece Slot templateOf filledOf)

theorem slotTexts_decoded {p : Pattern} (decoded : p.encodedSplats = false) (slots : List Slot) :
    p.slotTexts slots = slots.map (Option.map Percent.decode) := by
  have raw (i : Nat) : p.keepsRaw i = false := by simp [keepsRaw, decoded]
  have texts : p.slotTexts slots = (slots.zipIdx.map Prod.fst).map (Option.map Percent.decode) := by
    simp only [slotTexts, raw, List.map_map]
    rfl
  rw [texts, List.zipIdx_map_fst]

/-- A template of pieces between slashes, of which only the last may be a splat, matches the path
that it becomes when every name is replaced by an encoded value. Each name gets its value back, and
nothing else is an argument. -/
theorem argumentsFor_filled {pieces : List Piece} (fits : ∀ piece ∈ pieces, piece.Fits)
    (splatLast : ∀ piece ∈ pieces.dropLast, piece.isSplat = false) {named : Option Bool}
    {config : Config} (positional : named.getD config.named = false)
    (decoded : config.encodedSplats = false) :
    (ofTemplate (templateOf pieces) named config).isMatch (filledOf pieces) = true ∧
      (ofTemplate (templateOf pieces) named config).argumentsFor (filledOf pieces) =
        .ok ((pieces.filterMap Piece.value?).map fun value => some (.text value)) := by
  obtain ⟨choices, h⟩ := Template.exists_reading_filled fits
  have captured := Template.captures?_of_reading (Template.noQuery_filledOf fits) h
    (fun _ _ => Template.slots_of_reading fits splatLast) named config
  have texts : (pieces.flatMap Piece.slots).map (Option.map Percent.decode) =
      (pieces.filterMap Piece.value?).map some := by
    rw [List.map_flatMap, List.filterMap_eq_flatMap_toList, List.map_flatMap]
    apply List.flatMap_congr
    intro piece _
    simp [Piece.slots, Function.comp_def, decode_fieldText]
  constructor
  · rw [isMatch, captured]
    rfl
  · have positional : (ofTemplate (templateOf pieces) named config).named = false := positional
    have decoded : (ofTemplate (templateOf pieces) named config).encodedSplats = false := decoded
    rw [argumentsFor, captured]
    simp [argumentsOf, positional, slotTexts_decoded decoded, texts, Function.comp_def]

/-- Values with separators and with what looks like an escape, a name that occurs twice, and a
literal with a colon and one without characters. -/
theorem argumentsFor_filled_of_marks :
    let pieces : List Piece := [.literal "a.b:", .segment "id" "x/y?z", .literal "",
      .segment "id" "%41+&", .splat "rest" "\u00e9/"]
    let p := ofTemplate "a.b:/:id//:id/*rest"
    ((∀ piece ∈ pieces, piece.Fits) ∧ (∀ piece ∈ pieces.dropLast, piece.isSplat = false) ∧
      (none : Option Bool).getD Config.standard.named = false ∧
      Config.standard.encodedSplats = false) ∧
    p.isMatch "a.b:/x%2Fy%3Fz//%2541%2B%26/%C3%A9%2F" = true ∧
    p.argumentsFor "a.b:/x%2Fy%3Fz//%2541%2B%26/%C3%A9%2F" =
      .ok [some (.text "x/y?z"), some (.text "%41+&"), some (.text "\u00e9/")] := by
  intro pieces p
  have name : Piece.IsName "id" ∧ Piece.IsName "rest" := by
    constructor <;> exact ⟨by decide, List.all_eq_true.mp (by decide)⟩
  have literal : Piece.Fits (.literal "a.b:") := by
    constructor <;> exact List.forall_iff_forall_mem.mp (by decide)
  have empty : Piece.Fits (.literal "") := by simp [Piece.Fits]
  have fits : ∀ piece ∈ pieces, piece.Fits := by
    simp only [pieces, List.forall_mem_cons]
    exact ⟨literal, ⟨name.1, by decide⟩, empty, ⟨name.1, by decide⟩, name.2,
      List.forall_mem_nil _⟩
  have splatLast : ∀ piece ∈ pieces.dropLast, piece.isSplat = false := by decide
  have template : templateOf pieces = "a.b:/:id//:id/*rest" := by decide +kernel
  have filled : filledOf pieces = "a.b:/x%2Fy%3Fz//%2541%2B%26/%C3%A9%2F" := by decide +kernel
  have main := @argumentsFor_filled pieces fits splatLast none .standard rfl rfl
  rw [template, filled] at main
  exact ⟨⟨fits, splatLast, rfl, rfl⟩, main⟩

end Pattern

end FragmentRouting
