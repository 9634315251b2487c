import UnsafeAudit.Text.Lines

/-!
# Splitting texts

What the splits of a text come to where it is put together from parts: a line
that is ended, words with a blank after them, and a text that is cut where a
mark stands for the first time.
-/

namespace UnsafeAudit.Text

variable {c d : Char} {line mark before after text rest : List Char}

-- ---------------------------------------------------------------------------
-- Lines
-- ---------------------------------------------------------------------------

theorem isBlank_of_isLineEnd (h : isLineEnd c = true) : isBlank c = true := by
  simp only [isLineEnd, List.mem_cons, List.not_mem_nil, or_false, decide_eq_true_eq] at h
  rcases h with rfl | rfl | rfl | rfl | rfl | rfl | rfl | rfl | rfl | rfl <;> decide

theorem lines_cons_end (h : isLineEnd c = true) (hc : c ≠ '\r') :
    lines (c :: rest) = [] :: lines rest := by
  rw [lines]
  · simp [h]
  · intro more heq
    simp [heq] at hc

theorem lines_cons (h : isLineEnd c = false) :
    lines (c :: rest) =
      match lines rest with
      | [] => [[c]]
      | line :: more => (c :: line) :: more := by
  rw [lines]
  · exact if_neg (Bool.eq_false_iff.mp h)
  · rintro more rfl rfl
    simp [isLineEnd] at h

theorem lines_append_newline (h : ∀ c ∈ line, isLineEnd c = false) :
    lines (line ++ '\n' :: rest) = line :: lines rest := by
  induction line with
  | nil => exact lines_cons_end (by decide) (by decide)
  | cons c line ih =>
    obtain ⟨hc, hline⟩ := List.forall_mem_cons.mp h
    rw [List.cons_append, lines_cons hc, ih hline]

-- ---------------------------------------------------------------------------
-- Words
-- ---------------------------------------------------------------------------

@[simp] theorem words_cons_blank (h : isBlank c = true) : words (c :: rest) = words rest := by
  cases rest <;> simp [words, h]

@[simp] theorem words_singleton (h : isBlank c = false) : words [c] = [[c]] := by
  simp [words, h]

theorem words_cons_of_blank (hc : isBlank c = false) (hd : isBlank d = true) :
    words (c :: d :: rest) = [c] :: words (d :: rest) := by
  rw [words]
  simp [hc, hd]

theorem words_cons_of_word (hc : isBlank c = false) (hd : isBlank d = false) :
    words (c :: d :: rest) =
      match words (d :: rest) with
      | [] => [[c]]
      | word :: more => (c :: word) :: more := by
  rw [words]
  exact (if_neg (Bool.eq_false_iff.mp hc)).trans (if_neg (Bool.eq_false_iff.mp hd))

theorem exists_words_cons (h : isBlank c = false) (rest : List Char) :
    ∃ word more, words (c :: rest) = (c :: word) :: more := by
  cases rest with
  | nil => exact ⟨[], [], words_singleton h⟩
  | cons d rest =>
    cases hd : isBlank d with
    | true => exact ⟨[], _, words_cons_of_blank h hd⟩
    | false =>
      rw [words_cons_of_word h hd]
      split
      · exact ⟨[], [], rfl⟩
      · exact ⟨_, _, rfl⟩

theorem words_append_blank (h : isBlank d = true) (text rest : List Char) :
    words (text ++ d :: rest) = words text ++ words rest := by
  induction text with
  | nil => exact words_cons_blank h
  | cons c text ih =>
    cases hc : isBlank c with
    | true => rw [List.cons_append, words_cons_blank hc, words_cons_blank hc, ih]
    | false =>
      cases text with
      | nil => simp [words_cons_of_blank hc h, words_singleton hc, words_cons_blank h]
      | cons e text =>
        simp only [List.cons_append] at ih ⊢
        cases he : isBlank e with
        | true => rw [words_cons_of_blank hc he, words_cons_of_blank hc he, ih, List.cons_append]
        | false =>
          obtain ⟨word, more, hwords⟩ := exists_words_cons he text
          rw [words_cons_of_word hc he, words_cons_of_word hc he, ih, hwords]
          rfl

/-- Where blanks stand for the separators of a text, its words are the pieces between these that
are not empty. -/
theorem words_map {f : Char → Char} {separates : Char → Bool}
    (hblank : ∀ c, isBlank (f c) = separates c) (hother : ∀ c, separates c = false → f c = c)
    (text : List Char) :
    words (text.map f) = (text.splitOnP separates).filter (· ≠ []) := by
  induction text with
  | nil => simp [words]
  | cons c rest ih =>
    rw [List.map_cons, List.splitOnP_cons_eq_if_modifyHead]
    cases hc : separates c with
    | true => rw [words_cons_blank ((hblank c).trans hc), ih]; simp
    | false =>
      have hword : isBlank c = false := hother c hc ▸ (hblank c).trans hc
      rw [hother c hc, if_neg (by simp)]
      cases rest with
      | nil => simp [words_singleton hword]
      | cons d rest =>
        rw [List.map_cons, List.splitOnP_cons_eq_if_modifyHead] at ih
        rw [List.map_cons, List.splitOnP_cons_eq_if_modifyHead]
        cases hd : separates d with
        | true =>
          rw [words_cons_of_blank hword ((hblank d).trans hd), ih]
          simp [hd]
        | false =>
          -- The first piece goes on with `d`, in the words as in the pieces.
          obtain ⟨piece, more, hpieces⟩ := List.exists_cons_of_ne_nil
            (List.splitOnP_ne_nil separates rest)
          rw [words_cons_of_word hword ((hblank d).trans hd), ih, hpieces]
          simp [hd]

-- ---------------------------------------------------------------------------
-- Cuts
-- ---------------------------------------------------------------------------

theorem cut?_of_prefix (h : mark <+: text) (hmark : mark ≠ []) :
    cut? mark text = some ([], text.drop mark.length) := by
  cases text with
  | nil => exact absurd (List.prefix_nil.mp h) hmark
  | cons c rest => rw [cut?, if_pos (List.isPrefixOf_iff_prefix.mpr h)]

/-- A text is cut behind what holds no mark and starts none together with the mark behind it. -/
theorem cut?_append (hmark : mark ≠ [])
    (h : ∀ start more, before = start ++ more → more ≠ [] → ¬ mark <+: more ++ (mark ++ after)) :
    cut? mark (before ++ (mark ++ after)) = some (before, after) := by
  induction before with
  | nil =>
    rw [List.nil_append, cut?_of_prefix (List.prefix_append mark after) hmark]
    simp
  | cons c before ih =>
    have hhere := h [] (c :: before) rfl (by simp)
    rw [List.cons_append, cut?, if_neg (by simpa using hhere),
      ih fun start more heq => h (c :: start) more (by rw [heq]; rfl)]
    rfl

/-- A text is cut at the first of the places where a mark stands. -/
structure IsFirstCut (mark text before after : List Char) : Prop where
  eq : text = before ++ (mark ++ after)
  first : ∀ start rest, text = start ++ (mark ++ rest) → before.length ≤ start.length

theorem IsFirstCut.nil (h : mark <+: text) : IsFirstCut mark text [] (text.drop mark.length) where
  eq := by
    obtain ⟨rest, rfl⟩ := h
    simp
  first _ _ _ := Nat.zero_le _

theorem IsFirstCut.cons (h : IsFirstCut mark text before after) (hc : ¬ mark <+: c :: text) :
    IsFirstCut mark (c :: text) (c :: before) after where
  eq := congrArg (c :: ·) h.eq
  first start rest heq := by
    cases start with
    | nil => exact absurd ⟨rest, heq.symm⟩ hc
    | cons d start => exact Nat.succ_le_succ (h.first start rest (List.cons.inj heq).2)

theorem isFirstCut_of_cut? (h : cut? mark text = some (before, after)) :
    IsFirstCut mark text before after := by
  induction text generalizing before with
  | nil =>
    rw [cut?] at h
    split at h
    · rename_i hempty
      cases h
      rw [List.isEmpty_iff.mp hempty]
      exact .nil List.nil_prefix
    · cases h
  | cons c text ih =>
    rw [cut?] at h
    split at h
    · rename_i hbegins
      cases h
      exact .nil (List.isPrefixOf_iff_prefix.mp hbegins)
    · rename_i hbegins
      obtain ⟨⟨start, rest⟩, hcut, heq⟩ := Option.map_eq_some_iff.mp h
      cases heq
      exact (ih hcut).cons fun hmark => hbegins (List.isPrefixOf_iff_prefix.mpr hmark)

theorem isSome_cut?_iff : (cut? mark text).isSome = true ↔ mark <:+: text := by
  induction text with
  | nil => cases mark <;> simp [cut?]
  | cons c text ih =>
    rw [cut?, List.infix_cons_iff]
    split
    · rename_i hbegins
      simp [List.isPrefixOf_iff_prefix.mp hbegins]
    · rename_i hbegins
      rw [Option.isSome_map, ih, ← List.isPrefixOf_iff_prefix]
      simp [hbegins]

theorem IsFirstCut.unique {before' after' : List Char} (h : IsFirstCut mark text before after)
    (h' : IsFirstCut mark text before' after') : before = before' ∧ after = after' := by
  have hlen : before.length = before'.length :=
    Nat.le_antisymm (h.first _ _ h'.eq) (h'.first _ _ h.eq)
  obtain ⟨hbefore, hrest⟩ := List.append_inj (h.eq.symm.trans h'.eq) hlen
  exact ⟨hbefore, List.append_cancel_left hrest⟩

theorem cut?_eq_some_iff :
    cut? mark text = some (before, after) ↔ IsFirstCut mark text before after := by
  refine ⟨isFirstCut_of_cut?, fun h => ?_⟩
  have hmark : mark <:+: text := ⟨before, after, by rw [h.eq, List.append_assoc]⟩
  obtain ⟨⟨start, rest⟩, hcut⟩ := Option.isSome_iff_exists.mp (isSome_cut?_iff.mpr hmark)
  obtain ⟨rfl, rfl⟩ := h.unique (isFirstCut_of_cut? hcut)
  exact hcut

-- ---------------------------------------------------------------------------
-- One piece, one byte a character
-- ---------------------------------------------------------------------------

theorem splitOn_of_not_mem {sep : Char} (h : sep ∉ text) : splitOn sep text = [text] := by
  induction text with
  | nil => rfl
  | cons c rest ih =>
    obtain ⟨hne, hrest⟩ := List.ne_and_not_mem_of_not_mem_cons h
    rw [splitOn, if_neg hne.symm, ih hrest]

theorem splitOn_ne_nil (sep : Char) (text : List Char) : splitOn sep text ≠ [] := by
  cases text with
  | nil => simp [splitOn]
  | cons c rest =>
    rw [splitOn]
    repeat' split
    all_goals simp

theorem splitOn_append {sep : Char} {piece : List Char} (h : sep ∉ piece) (rest : List Char) :
    splitOn sep (piece ++ sep :: rest) = piece :: splitOn sep rest := by
  induction piece with
  | nil => simp [splitOn]
  | cons c piece ih =>
    obtain ⟨hne, hpiece⟩ := List.ne_and_not_mem_of_not_mem_cons h
    rw [List.cons_append, splitOn, if_neg hne.symm, ih hpiece]

theorem not_mem_of_mem_splitOn {sep : Char} {piece : List Char} (h : piece ∈ splitOn sep text) :
    sep ∉ piece := by
  induction text generalizing piece with
  | nil => simp_all [splitOn]
  | cons c rest ih =>
    obtain ⟨first, more, hrest⟩ := List.exists_cons_of_ne_nil (splitOn_ne_nil sep rest)
    rw [hrest] at ih
    rw [splitOn, hrest] at h
    split at h
    · rcases List.mem_cons.mp h with rfl | h
      · simp
      · exact ih h
    · rename_i hne
      rcases List.mem_cons.mp h with rfl | h
      · simpa [Ne.symm hne] using ih List.mem_cons_self
      · exact ih (List.mem_cons_of_mem _ h)

theorem subset_of_mem_splitOn {sep : Char} {piece : List Char} (h : piece ∈ splitOn sep text) :
    piece ⊆ text := by
  induction text generalizing piece with
  | nil => simp_all [splitOn]
  | cons c rest ih =>
    obtain ⟨first, more, hrest⟩ := List.exists_cons_of_ne_nil (splitOn_ne_nil sep rest)
    rw [hrest] at ih
    rw [splitOn, hrest] at h
    split at h
    · rcases List.mem_cons.mp h with rfl | h
      · exact List.nil_subset _
      · exact List.subset_cons_of_subset c (ih h)
    · rcases List.mem_cons.mp h with rfl | h
      · exact List.cons_subset_cons c (ih List.mem_cons_self)
      · exact List.subset_cons_of_subset c (ih (List.mem_cons_of_mem _ h))

theorem utf8ByteSize_replicate (hc : c.utf8Size = 1) (n : Nat) :
    (String.ofList (List.replicate n c)).utf8ByteSize = n := by
  induction n with
  | zero => rfl
  | succ n ih =>
    rw [List.replicate_succ, String.ofList_cons, String.utf8ByteSize_append,
      String.utf8ByteSize_singleton, hc, ih, Nat.add_comm]

end UnsafeAudit.Text
