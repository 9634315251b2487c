import UnsafeAudit.Proofs.Text.Lines
import UnsafeAudit.Text.Styled

/-!
# Styles in printed text

`unstyled` takes the sequences out of a text that set a style on a terminal. A
text without the escape character has none. Emphasis adds sequences around
pieces of a printed text and changes nothing else: the text sheds them
(`sheds_print`).
-/

namespace UnsafeAudit.Text

variable {a b s s' text : String} {chars line piece : List Char} {pieces : List (List Char)}
  {emphasis : Emphasis}

-- ---------------------------------------------------------------------------
-- Sequences that set a style
-- ---------------------------------------------------------------------------

def escape : Char := '\x1b'

def isCode (c : Char) : Bool := ('0' ≤ c && c ≤ '9') || c = ';'

/-- What follows a sequence that sets a style, if that is what comes after an escape. -/
def afterStyle? : List Char → Option (List Char)
  | '[' :: rest =>
    match rest.dropWhile isCode with
    | 'm' :: after => some after
    | _ => none
  | _ => none

theorem length_afterStyle? {after : List Char} (h : afterStyle? chars = some after) :
    after.length < chars.length := by
  unfold afterStyle? at h
  split at h
  · rename_i rest
    split at h
    · rename_i after' hdrop
      cases h
      have hle : (rest.dropWhile isCode).length ≤ rest.length :=
        (List.dropWhile_sublist isCode).length_le
      rw [hdrop] at hle
      simp only [List.length_cons] at hle ⊢
      omega
    · cases h
  · cases h

/-- A text without the sequences in it that set a style. -/
def unstyled : List Char → List Char
  | [] => []
  | c :: rest =>
    if c = escape then
      match _h : afterStyle? rest with
      | some after => unstyled after
      | none => c :: unstyled rest
    else c :: unstyled rest
termination_by text => text.length
decreasing_by
  · exact Nat.lt_succ_of_lt (length_afterStyle? _h)
  · exact Nat.lt_succ_self _
  · exact Nat.lt_succ_self _

theorem unstyled_append (h : escape ∉ chars) (rest : List Char) :
    unstyled (chars ++ rest) = chars ++ unstyled rest := by
  induction chars with
  | nil => rfl
  | cons c chars ih =>
    obtain ⟨hc, hchars⟩ := List.ne_and_not_mem_of_not_mem_cons h
    rw [List.cons_append, unstyled, if_neg hc.symm, ih hchars]
    rfl

theorem unstyled_style {codes : List Char} (h : ∀ c ∈ codes, isCode c = true)
    (rest : List Char) :
    unstyled (escape :: '[' :: (codes ++ 'm' :: rest)) = unstyled rest := by
  have hafter : afterStyle? ('[' :: (codes ++ 'm' :: rest)) = some rest := by
    have hm : isCode 'm' = false := by decide
    have hdrop : (codes ++ 'm' :: rest).dropWhile isCode = 'm' :: rest := by
      rw [List.dropWhile_append_of_pos h, List.dropWhile_cons_of_neg (by simp [hm])]
    simp [afterStyle?, hdrop]
  rw [unstyled, if_pos rfl]
  split
  · rename_i after hfound
    rw [hafter] at hfound
    cases hfound
    rfl
  · rename_i hfound
    rw [hafter] at hfound
    cases hfound

-- ---------------------------------------------------------------------------
-- Texts without the escape character
-- ---------------------------------------------------------------------------

/-- A text does not have the character that begins a sequence. -/
def Bare (text : String) : Prop := escape ∉ text.toList

instance : DecidablePred Bare := fun text => inferInstanceAs (Decidable (escape ∉ text.toList))

@[simp] theorem bare_append : Bare (a ++ b) ↔ Bare a ∧ Bare b := by
  simp [Bare]

theorem bare_ofList : Bare (String.ofList chars) ↔ escape ∉ chars := by
  rw [Bare, String.toList_ofList]

theorem Bare.of_subset (h : Bare text) (hpiece : piece ⊆ text.toList) : Bare (String.ofList piece) :=
  bare_ofList.mpr fun hmem => h (hpiece hmem)

theorem bare_join : ∀ {texts : List String}, (∀ t ∈ texts, Bare t) → Bare (String.join texts)
  | [], _ => by simp [Bare]
  | t :: rest, h => by
    obtain ⟨ht, hrest⟩ := List.forall_mem_cons.mp h
    rw [String.join_cons]
    exact bare_append.mpr ⟨ht, bare_join hrest⟩

theorem bare_joinWith {sep : String} (hsep : Bare sep) :
    ∀ {texts : List String}, (∀ t ∈ texts, Bare t) → Bare (joinWith sep texts)
  | [], _ => by simp [joinWith, Bare]
  | [t], h => h t (List.mem_singleton_self t)
  | t :: next :: rest, h => by
    obtain ⟨ht, hrest⟩ := List.forall_mem_cons.mp h
    rw [joinWith]
    · exact bare_append.mpr ⟨bare_append.mpr ⟨ht, hsep⟩, bare_joinWith hsep hrest⟩
    · exact List.cons_ne_nil next rest

-- ---------------------------------------------------------------------------
-- Texts that shed their styles
-- ---------------------------------------------------------------------------

/-- A text without its sequences is another one, whatever stands after it. -/
structure Sheds (s s' : String) : Prop where
  unstyled_append : ∀ rest, unstyled (s.toList ++ rest) = s'.toList ++ unstyled rest
  bare : Bare s'

namespace Sheds

theorem refl (h : Bare s) : Sheds s s := ⟨Text.unstyled_append h, h⟩

theorem append {t t' : String} (h : Sheds s s') (h' : Sheds t t') : Sheds (s ++ t) (s' ++ t') where
  unstyled_append rest := by
    simp [h.unstyled_append, h'.unstyled_append]
  bare := bare_append.mpr ⟨h.bare, h'.bare⟩

theorem unstyled (h : Sheds s s') : unstyled s.toList = s'.toList := by
  have hnil : Text.unstyled [] = [] := by rw [Text.unstyled]
  simpa [hnil] using h.unstyled_append []

theorem join {α : Type} {f g : α → String} : ∀ {xs : List α}, (∀ x ∈ xs, Sheds (f x) (g x)) →
    Sheds (String.join (xs.map f)) (String.join (xs.map g))
  | [], _ => refl (s := "") (by decide)
  | x :: rest, h => by
    obtain ⟨hx, hrest⟩ := List.forall_mem_cons.mp h
    simpa using hx.append (join hrest)

theorem joinWith {α : Type} {sep : String} {f g : α → String} (hsep : Bare sep) :
    ∀ {xs : List α}, (∀ x ∈ xs, Sheds (f x) (g x)) →
      Sheds (Text.joinWith sep (xs.map f)) (Text.joinWith sep (xs.map g))
  | [], _ => refl (s := "") (by decide)
  | [x], h => h x (List.mem_singleton_self x)
  | x :: next :: rest, h => by
    obtain ⟨hx, hrest⟩ := List.forall_mem_cons.mp h
    exact (hx.append (refl hsep)).append (joinWith hsep hrest)

end Sheds

theorem isCode_of_mem_codes (emphasis : Emphasis) : ∀ c ∈ emphasis.codes.toList, isCode c = true := by
  have hall : emphasis.codes.toList.all isCode = true := by
    cases emphasis <;> rfl
  exact List.all_eq_true.mp hall

theorem Emphasis.wrap_plain (piece : String) : Emphasis.plain.wrap piece = piece := by
  rw [wrap]
  simp

theorem sheds_wrap (emphasis : Emphasis) (h : Bare s) : Sheds (emphasis.wrap s) s := by
  rw [Emphasis.wrap]
  split
  · exact .refl h
  · refine ⟨fun rest => ?_, h⟩
    have htext : (s!"\x1b[{emphasis.codes}m{s}\x1b[0m").toList ++ rest =
        escape :: '[' :: (emphasis.codes.toList ++ 'm' ::
          (s.toList ++ escape :: '[' :: (['0'] ++ 'm' :: rest))) := by
      simp [escape, toString]
    have hplain : ∀ c ∈ ['0'], isCode c = true := List.forall_mem_singleton.mpr rfl
    rw [htext, unstyled_style (isCode_of_mem_codes emphasis), unstyled_append h,
      unstyled_style hplain]

-- ---------------------------------------------------------------------------
-- Printed text
-- ---------------------------------------------------------------------------

theorem escape_not_mem_fillTabs {column : Nat} (h : ∀ piece ∈ pieces, escape ∉ piece) :
    ∀ piece ∈ fillTabs column pieces, escape ∉ piece := by
  induction column, pieces using fillTabs.induct with
  | case1 column => simp [fillTabs]
  | case2 column last hlast => simp [fillTabs, hlast]
  | case3 column last hlast => simpa [fillTabs, hlast] using h
  | case4 column piece rest hrest filled reached missing ih =>
    obtain ⟨hpiece, hmore⟩ := List.forall_mem_cons.mp h
    rw [fillTabs]
    · refine List.forall_mem_cons.mpr ⟨?_, ih hmore⟩
      have hblank : ∀ n, escape ∉ List.replicate n ' ' := fun n hmem =>
        absurd (List.eq_of_mem_replicate hmem) (by decide)
      simp only [List.mem_append, List.mem_singleton, not_or]
      exact ⟨⟨hpiece, by decide⟩, hblank _⟩
    · exact hrest

theorem sheds_printLine (emphasis : Emphasis) (h : escape ∉ line) :
    Sheds (printLine emphasis line) (printLine .plain line) := by
  refine .join fun piece hpiece => ?_
  have hbare : Bare (String.ofList piece) :=
    bare_ofList.mpr (escape_not_mem_fillTabs
      (fun _ hp hmem => h (subset_of_mem_splitOn hp hmem)) piece hpiece)
  rw [Emphasis.wrap_plain]
  exact sheds_wrap emphasis hbare

/-- What is printed with emphasis sheds it, and is then what is printed without. -/
theorem sheds_print (emphasis : Emphasis) (h : Bare text) :
    Sheds (print emphasis text) (print .plain text) := by
  refine (Sheds.joinWith (by decide) fun line hline => ?_).append (.refl (by decide))
  refine sheds_printLine emphasis fun hmem => h ?_
  exact (List.mem_filter.mp (subset_of_mem_splitOn hline hmem)).1

end UnsafeAudit.Text
