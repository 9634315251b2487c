import UnsafeAudit.Proofs.Loops
import UnsafeAudit.Report.Pattern

/-!
# Written patterns

A pattern is written as a row of pieces: characters that are no braces, doubled
braces and placeholders. Such texts and no others can be read, and reading is the
inverse of writing in both directions (`parse_unparse`). So what two patterns show
is shown by their texts one behind the other.
-/

namespace UnsafeAudit.Pattern

-- ---------------------------------------------------------------------------
-- Pieces
-- ---------------------------------------------------------------------------

inductive Piece
  | plain (c : Char) (h : c ≠ '\x7b' ∧ c ≠ '\x7d')
  | opening
  | closing
  | placeholder (which : Placeholder)

namespace Piece

def text : Piece → List Char
  | plain c _ => [c]
  | opening => ['\x7b', '\x7b']
  | closing => ['\x7d', '\x7d']
  | placeholder .package => ['\x7b', 'p', '\x7d']
  | placeholder .license => ['\x7b', 'l', '\x7d']
  | placeholder .repository => ['\x7b', 'r', '\x7d']
  | placeholder .features => ['\x7b', 'f', '\x7d']

def before : Piece → Pattern → Pattern
  | plain c _ => consChar c
  | opening => consChar '\x7b'
  | closing => consChar '\x7d'
  | placeholder which => (.placeholder which :: ·)

def display (summary : PackageSummary) : Piece → String
  | plain c _ => String.ofList [c]
  | opening => "\x7b"
  | closing => "\x7d"
  | placeholder which => which.value summary

def ofChar (c : Char) : Piece :=
  if ho : c = '\x7b' then opening
  else if hc : c = '\x7d' then closing
  else plain c ⟨ho, hc⟩

theorem text_placeholder (which : Placeholder) :
    text (placeholder which) = ['\x7b', which.letter, '\x7d'] := by
  cases which <;> rfl

theorem text_ofChar (c : Char) : text (ofChar c) = unparseChar c := by
  unfold ofChar
  split
  · rename_i h
    rw [h]
    rfl
  split
  · rename_i h
    rw [h]
    rfl
  · rename_i ho hc
    simp [unparseChar, text, ho, hc]

theorem before_ofChar (c : Char) : before (ofChar c) = consChar c := by
  unfold ofChar
  split
  · rename_i h
    rw [h]
    rfl
  split
  · rename_i h
    rw [h]
    rfl
  · rfl

end Piece

def IsWritten (text : List Char) : Prop := ∃ pieces : List Piece, text = pieces.flatMap Piece.text

def ofPieces (pieces : List Piece) : Pattern := pieces.foldr Piece.before []

/-- No text in the pattern is empty, and no two are neighbours. -/
structure Normal (pattern : Pattern) : Prop where
  nonempty : .text [] ∉ pattern
  apart : ∀ a b, ¬ [.text a, .text b] <:+: pattern

-- ---------------------------------------------------------------------------
-- Reading pieces
-- ---------------------------------------------------------------------------

variable {text name after a b : List Char} {pattern p q : Pattern} {c : Char}
  {which : Placeholder} {summary : PackageSummary}

theorem ofName?_letter (which : Placeholder) : Placeholder.ofName? [which.letter] = some which := by
  cases which <;> rfl

theorem eq_of_ofName? (h : Placeholder.ofName? name = some which) : name = [which.letter] := by
  have hname := List.find?_some h
  exact (of_decide_eq_true hname).symm

theorem eq_of_cutBrace (h : cutBrace text = some (name, after)) :
    text = name ++ '\x7d' :: after := by
  induction text generalizing name with
  | nil => cases h
  | cons c rest ih =>
    unfold cutBrace at h
    split at h
    · cases h
    · rename_i heq
      cases heq
      cases h
      rfl
    · rename_i heq
      cases heq
      obtain ⟨⟨name, after⟩, hcut, heq⟩ := Option.map_eq_some_iff.mp h
      cases heq
      rw [ih hcut]
      rfl

theorem parseChars_placeholder (which : Placeholder) (rest : List Char) :
    parseChars ('\x7b' :: which.letter :: '\x7d' :: rest) =
      (parseChars rest).map (.placeholder which :: ·) := by
  have hcut : cutBrace (which.letter :: '\x7d' :: rest) = some ([which.letter], rest) := by
    cases which <;> rfl
  have hbrace : ∀ more, which.letter :: '\x7d' :: rest ≠ '\x7b' :: more := by
    cases which <;> simp [Placeholder.letter]
  rw [parseChars]
  · split
    · rename_i h
      rw [hcut] at h
      cases h
    · rename_i h
      rw [hcut] at h
      cases h
      rw [ofName?_letter]
  · exact hbrace

theorem parseChars_text (piece : Piece) (rest : List Char) :
    parseChars (piece.text ++ rest) = (parseChars rest).map piece.before := by
  cases piece with
  | plain c h =>
    show parseChars (c :: rest) = _
    rw [parseChars]
    · rfl
    all_goals simp [h.1, h.2]
  | opening =>
    show parseChars ('\x7b' :: '\x7b' :: rest) = _
    rw [parseChars]
    rfl
  | closing =>
    show parseChars ('\x7d' :: '\x7d' :: rest) = _
    rw [parseChars]
    rfl
  | placeholder which =>
    rw [Piece.text_placeholder]
    exact parseChars_placeholder which rest

theorem parseChars_pieces (pieces : List Piece) :
    parseChars (pieces.flatMap Piece.text) = .ok (ofPieces pieces) := by
  induction pieces with
  | nil =>
    rw [List.flatMap_nil, parseChars]
    rfl
  | cons piece rest ih =>
    rw [List.flatMap_cons, parseChars_text, ih]
    rfl

theorem IsWritten.cons (piece : Piece) (h : IsWritten text) : IsWritten (piece.text ++ text) := by
  obtain ⟨pieces, rfl⟩ := h
  exact ⟨piece :: pieces, rfl⟩

theorem isWritten_of_parseChars (h : parseChars text = .ok pattern) : IsWritten text := by
  fun_induction parseChars text generalizing pattern with
  | case1 => exact ⟨[], rfl⟩
  | case2 rest ih =>
    obtain ⟨read, hread⟩ := exists_of_map_ok h
    exact (ih hread).cons .opening
  | case3 rest ih =>
    obtain ⟨read, hread⟩ := exists_of_map_ok h
    exact (ih hread).cons .closing
  | case4 => cases h
  | case5 => cases h
  | case6 rest _ name after hcut which hname ih =>
    obtain ⟨read, hread⟩ := exists_of_map_ok h
    rw [eq_of_cutBrace hcut, eq_of_ofName? hname]
    have := (ih hread).cons (.placeholder which)
    rwa [Piece.text_placeholder] at this
  | case7 => cases h
  | case8 c rest _ _ hopening hclosing ih =>
    obtain ⟨read, hread⟩ := exists_of_map_ok h
    exact (ih hread).cons (.plain c ⟨hopening, hclosing⟩)

-- ---------------------------------------------------------------------------
-- Writing pieces
-- ---------------------------------------------------------------------------

theorem unparse_consChar (c : Char) (rest : Pattern) :
    unparse (consChar c rest) = unparseChar c ++ unparse rest := by
  unfold consChar
  split
  · simp [unparse, unparseChunk]
  · simp [unparse, unparseChunk]

theorem unparse_before (piece : Piece) (rest : Pattern) :
    unparse (piece.before rest) = piece.text ++ unparse rest := by
  cases piece with
  | plain c h =>
    rw [Piece.before, unparse_consChar]
    simp [unparseChar, Piece.text, h.1, h.2]
  | opening => exact unparse_consChar _ _
  | closing => exact unparse_consChar _ _
  | placeholder which =>
    rw [Piece.text_placeholder]
    rfl

theorem unparse_ofPieces (pieces : List Piece) :
    unparse (ofPieces pieces) = pieces.flatMap Piece.text := by
  induction pieces with
  | nil => rfl
  | cons piece rest ih => rw [List.flatMap_cons, ← ih, ← unparse_before]; rfl

-- ---------------------------------------------------------------------------
-- Normal patterns
-- ---------------------------------------------------------------------------

theorem normal_nil : Normal [] := ⟨nofun, by simp⟩

theorem normal_placeholder_iff : Normal (.placeholder which :: pattern) ↔ Normal pattern := by
  constructor
  · intro h
    exact ⟨fun hmem => h.nonempty (List.mem_cons_of_mem _ hmem),
      fun a b hab => h.apart a b (List.infix_cons hab)⟩
  · intro h
    refine ⟨by simp [h.nonempty], fun a b => ?_⟩
    simp [List.infix_cons_iff, h.apart]

theorem normal_text_iff : Normal (.text text :: pattern) ↔
    text ≠ [] ∧ (∀ next, pattern.head? ≠ some (.text next)) ∧ Normal pattern := by
  constructor
  · intro h
    refine ⟨?_, fun next hnext => ?_, fun hmem => h.nonempty (List.mem_cons_of_mem _ hmem),
      fun a b hab => h.apart a b (List.infix_cons hab)⟩
    · rintro rfl
      exact h.nonempty List.mem_cons_self
    · obtain ⟨rest, rfl⟩ := List.head?_eq_some_iff.mp hnext
      exact h.apart text next ⟨[], rest, rfl⟩
  · rintro ⟨htext, hnext, h⟩
    refine ⟨by simp [h.nonempty, Ne.symm htext], fun a b hab => ?_⟩
    rcases List.infix_cons_iff.mp hab with hbegins | hinfix
    · obtain ⟨-, rest, rfl⟩ := List.cons_prefix_cons.mp hbegins
      exact hnext b rfl
    · exact h.apart a b hinfix

theorem Normal.consChar (h : Normal pattern) (c : Char) : Normal (consChar c pattern) := by
  unfold Pattern.consChar
  split
  · rename_i chars rest
    obtain ⟨-, hnext, hrest⟩ := normal_text_iff.mp h
    exact normal_text_iff.mpr ⟨by simp, hnext, hrest⟩
  · rename_i hother
    refine normal_text_iff.mpr ⟨by simp, fun next hnext => ?_, h⟩
    obtain ⟨rest, rfl⟩ := List.head?_eq_some_iff.mp hnext
    exact hother _ _ rfl

theorem normal_ofPieces (pieces : List Piece) : Normal (ofPieces pieces) := by
  induction pieces with
  | nil => exact normal_nil
  | cons piece rest ih =>
    cases piece with
    | plain => exact ih.consChar _
    | opening => exact ih.consChar _
    | closing => exact ih.consChar _
    | placeholder => exact normal_placeholder_iff.mpr ih

def pieces (pattern : Pattern) : List Piece :=
  pattern.flatMap fun
    | .text chars => chars.map Piece.ofChar
    | .placeholder which => [.placeholder which]

theorem text_pieces (pattern : Pattern) : pattern.pieces.flatMap Piece.text = unparse pattern := by
  induction pattern with
  | nil => rfl
  | cons chunk rest ih =>
    rw [pieces, List.flatMap_cons, List.flatMap_append, ← pieces, ih]
    cases chunk with
    | text chars => simp [unparse, unparseChunk, List.flatMap_map, Piece.text_ofChar]
    | placeholder which => simp [unparse, unparseChunk, Piece.text_placeholder]

/-- A text that is not empty becomes one chunk, unless the next chunk is a text as well. -/
theorem foldr_before_ofChar (hnext : ∀ next, pattern.head? ≠ some (.text next)) (c : Char)
    (text : List Char) : (List.map Piece.ofChar (c :: text)).foldr Piece.before pattern =
      .text (c :: text) :: pattern := by
  induction text generalizing c with
  | nil =>
    rw [List.map_singleton, List.foldr_cons, List.foldr_nil, Piece.before_ofChar, consChar]
    exact fun chars rest hpattern => hnext chars (by rw [hpattern]; rfl)
  | cons d text ih =>
    rw [List.map_cons, List.foldr_cons, ih, Piece.before_ofChar]
    rfl

theorem ofPieces_pieces (h : Normal pattern) : ofPieces pattern.pieces = pattern := by
  induction pattern with
  | nil => rfl
  | cons chunk rest ih =>
    rw [pieces, List.flatMap_cons, ofPieces, List.foldr_append]
    cases chunk with
    | text chars =>
      obtain ⟨hchars, hnext, hrest⟩ := normal_text_iff.mp h
      obtain ⟨c, more, rfl⟩ := List.exists_cons_of_ne_nil hchars
      have := ih hrest
      rw [ofPieces, pieces] at this
      rw [this]
      exact foldr_before_ofChar hnext c more
    | placeholder which =>
      have := ih (normal_placeholder_iff.mp h)
      rw [ofPieces, pieces] at this
      rw [this]
      rfl

-- ---------------------------------------------------------------------------
-- What pieces show
-- ---------------------------------------------------------------------------

theorem display_cons (chunk : Chunk) (rest : Pattern) (summary : PackageSummary) :
    display (chunk :: rest) summary = displayChunk summary chunk ++ display rest summary := by
  rw [display, List.map_cons, String.join_cons]
  rfl

theorem display_consChar (c : Char) (rest : Pattern) (summary : PackageSummary) :
    display (consChar c rest) summary = String.ofList [c] ++ display rest summary := by
  unfold consChar
  split
  · rw [display_cons, display_cons, ← String.append_assoc]
    simp [displayChunk]
  · rw [display_cons]
    rfl

theorem display_before (piece : Piece) (rest : Pattern) (summary : PackageSummary) :
    display (piece.before rest) summary = piece.display summary ++ display rest summary := by
  cases piece with
  | plain c => exact display_consChar c rest summary
  | opening => exact display_consChar _ rest summary
  | closing => exact display_consChar _ rest summary
  | placeholder which => exact display_cons _ rest summary

/-- Rows of pieces show one behind the other what each of them shows. -/
theorem display_ofPieces_append (front back : List Piece) (summary : PackageSummary) :
    display (ofPieces (front ++ back)) summary =
      display (ofPieces front) summary ++ display (ofPieces back) summary := by
  induction front with
  | nil => exact String.empty_append.symm
  | cons piece front ih =>
    have hcons : ∀ more, ofPieces (piece :: more) = piece.before (ofPieces more) := fun _ => rfl
    rw [List.cons_append, hcons, hcons, display_before, display_before, ih, String.append_assoc]

-- ---------------------------------------------------------------------------
-- Reading and writing
-- ---------------------------------------------------------------------------

theorem parse_ok_iff {text : String} : parse text = .ok pattern ↔
    ∃ pieces : List Piece, text.toList = pieces.flatMap Piece.text ∧ pattern = ofPieces pieces := by
  constructor
  · intro h
    have hchars : parseChars text.toList = .ok pattern := of_mapError_ok h
    obtain ⟨pieces, htext⟩ := isWritten_of_parseChars hchars
    rw [htext, parseChars_pieces] at hchars
    exact ⟨pieces, htext, (Except.ok.inj hchars).symm⟩
  · rintro ⟨pieces, htext, rfl⟩
    rw [parse, htext, parseChars_pieces]
    rfl

/-- A text can be read exactly if it is a row of pieces. It is then how the pattern is written, and
the pattern is normal. A normal pattern is read back from what it is written as, and texts one behind
the other show what each of them shows. -/
theorem parse_unparse :
    (∀ text, (∃ pattern, parse text = .ok pattern) ↔ IsWritten text.toList) ∧
    (∀ text, ¬ IsWritten text.toList → ∃ fault, parse text = .error ⟨fault, text⟩) ∧
    (∀ text pattern, parse text = .ok pattern → unparse pattern = text.toList ∧ Normal pattern) ∧
    (∀ pattern, Normal pattern → parse (String.ofList (unparse pattern)) = .ok pattern) ∧
    ∀ a b p q, parse a = .ok p → parse b = .ok q →
      ∃ both, parse (a ++ b) = .ok both ∧
        ∀ summary, display both summary = display p summary ++ display q summary := by
  have hread (text : String) : (∃ pattern, parse text = .ok pattern) ↔ IsWritten text.toList :=
    ⟨fun ⟨_, h⟩ => have ⟨pieces, htext, _⟩ := parse_ok_iff.mp h; ⟨pieces, htext⟩,
      fun ⟨pieces, htext⟩ => ⟨_, parse_ok_iff.mpr ⟨pieces, htext, rfl⟩⟩⟩
  refine ⟨hread, fun text hnone => ?_, fun text pattern h => ?_, fun pattern h => ?_,
    fun a b p q ha hb => ?_⟩
  · cases hchars : parseChars text.toList with
    | ok pattern =>
      exact absurd (isWritten_of_parseChars hchars) hnone
    | error fault => exact ⟨fault, by rw [parse, hchars]; rfl⟩
  · obtain ⟨pieces, htext, rfl⟩ := parse_ok_iff.mp h
    exact ⟨by rw [unparse_ofPieces, htext], normal_ofPieces pieces⟩
  · refine parse_ok_iff.mpr ⟨pattern.pieces, ?_, (ofPieces_pieces h).symm⟩
    rw [String.toList_ofList, text_pieces]
  · obtain ⟨front, hfront, rfl⟩ := parse_ok_iff.mp ha
    obtain ⟨back, hback, rfl⟩ := parse_ok_iff.mp hb
    refine ⟨ofPieces (front ++ back), parse_ok_iff.mpr ⟨_, ?_, rfl⟩,
      display_ofPieces_append front back⟩
    rw [String.toList_append, hfront, hback, List.flatMap_append]

/-- Of three braces in a row, the first two are one and the third opens a placeholder. -/
theorem parse_unparse_braces :
    Normal [.text ['\x7b'], .placeholder .package, .text ['\x7d']] ∧
    parse "\x7b\x7b\x7bp\x7d\x7d\x7d" =
      .ok [.text ['\x7b'], .placeholder .package, .text ['\x7d']] := by
  have hnormal : Normal [.text ['\x7b'], .placeholder .package, .text ['\x7d']] :=
    normal_text_iff.mpr ⟨nofun, nofun, normal_placeholder_iff.mpr
      (normal_text_iff.mpr ⟨nofun, nofun, normal_nil⟩)⟩
  exact ⟨hnormal, parse_unparse.2.2.2.1 _ hnormal⟩

end UnsafeAudit.Pattern
