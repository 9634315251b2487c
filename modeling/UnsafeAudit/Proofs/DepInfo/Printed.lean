import Mathlib.Data.List.Basic
import UnsafeAudit.DepInfo.Basic
import UnsafeAudit.Proofs.Text.Lines

/-!
# Printed listings

A listing as it is printed: a line for each entry, with a backslash before each
blank of a name. It can be read back exactly if no name ends in a blank or in a
backslash (`parse_print_iff`). Such a name stays open: what is printed behind it
is read as a part of it.
-/

namespace UnsafeAudit.DepInfo

open Text (isBlank isLineEnd words)

variable {c : Char} {name word : List Char} {names out rest : List (List Char)} {entry : Entry}
  {entries : List Entry}

-- ---------------------------------------------------------------------------
-- Printing
-- ---------------------------------------------------------------------------

def escape : List Char → List Char
  | [] => []
  | c :: rest => if c = ' ' then '\\' :: ' ' :: escape rest else c :: escape rest

def printNames : List (List Char) → List Char
  | [] => []
  | [name] => escape name
  | name :: rest => escape name ++ ' ' :: printNames rest

def Entry.print (entry : Entry) : List Char :=
  entry.target.toList ++ (mark ++ printNames (entry.dependencies.map (·.toList)))

def print (entries : List Entry) : String :=
  String.ofList (entries.flatMap fun entry => entry.print ++ ['\n'])

/-- What can stand before the mark on a line. -/
structure IsTarget (target : List Char) : Prop where
  unmarked : ¬ mark <:+: target
  oneLine : ∀ c ∈ target, isLineEnd c = false

/-- What has no blanks but those that are escaped. -/
structure IsName (name : List Char) : Prop where
  ne_nil : name ≠ []
  blank : ∀ c ∈ name, isBlank c = true → c = ' '

instance : DecidablePred IsName := fun name =>
  decidable_of_iff (name ≠ [] ∧ name.all fun c => !isBlank c || c == ' ') <| by
    have hall : (name.all fun c => !isBlank c || c == ' ') = true ↔
        ∀ c ∈ name, isBlank c = true → c = ' ' := by
      simp [List.all_eq_true, imp_iff_not_or]
    exact ⟨fun h => ⟨h.1, hall.mp h.2⟩, fun h => ⟨h.1, hall.mpr h.blank⟩⟩

/-- A name goes on with the word behind it if its last character is a blank or a backslash. -/
def IsOpen (name : List Char) : Prop := name.getLast? = some ' ' ∨ name.getLast? = some '\\'

instance : DecidablePred IsOpen := fun _ => inferInstanceAs (Decidable (_ ∨ _))

theorem IsName.cases (h : IsName (c :: name)) :
    (c = ' ' ∨ isBlank c = false) ∧ (name = [] ∨ IsName name) := by
  obtain ⟨hc, hname⟩ := List.forall_mem_cons.mp h.blank
  refine ⟨?_, ?_⟩
  · cases hblank : isBlank c with
    | true => exact .inl (hc hblank)
    | false => exact .inr rfl
  · cases name with
    | nil => exact .inl rfl
    | cons d name => exact .inr ⟨by simp, hname⟩

-- ---------------------------------------------------------------------------
-- The words of a printed name
-- ---------------------------------------------------------------------------

theorem escape_blank (name : List Char) : escape (' ' :: name) = '\\' :: ' ' :: escape name := by
  simp [escape]

theorem escape_cons (h : isBlank c = false) (name : List Char) :
    escape (c :: name) = c :: escape name := by
  have hc : c ≠ ' ' := by
    rintro rfl
    exact absurd h (by decide)
  simp [escape, hc]

theorem words_escape_blank (name : List Char) :
    words (escape (' ' :: name)) = ['\\'] :: words (escape name) := by
  rw [escape_blank, Text.words_cons_of_blank (by decide) (by decide),
    Text.words_cons_blank (by decide)]

theorem words_escape_cons (hc : isBlank c = false) (hname : IsName name) :
    ∃ word more, words (escape name) = word :: more ∧ word ≠ [] ∧
      words (escape (c :: name)) = (c :: word) :: more := by
  obtain ⟨d, tail, hescape, hd⟩ : ∃ d tail, escape name = d :: tail ∧ isBlank d = false := by
    cases name with
    | nil => exact absurd rfl hname.ne_nil
    | cons d name =>
      rcases hname.cases.1 with rfl | hd
      · exact ⟨'\\', _, escape_blank name, by decide⟩
      · exact ⟨d, _, escape_cons hd name, hd⟩
  obtain ⟨word, more, hwords⟩ := Text.exists_words_cons hd tail
  refine ⟨d :: word, more, hescape ▸ hwords, by simp, ?_⟩
  rw [escape_cons hc, hescape, Text.words_cons_of_word hc hd, hwords]

theorem words_printNames (names : List (List Char)) :
    words (printNames names) = names.flatMap fun name => words (escape name) := by
  induction names with
  | nil => rfl
  | cons name rest ih =>
    cases rest with
    | nil => simp [printNames]
    | cons next rest =>
      have hprint : printNames (name :: next :: rest) =
          escape name ++ ' ' :: printNames (next :: rest) := rfl
      rw [hprint, Text.words_append_blank (by decide), ih]
      rfl

-- ---------------------------------------------------------------------------
-- Reading names
-- ---------------------------------------------------------------------------

/-- A name before those that are read behind it. An open one goes on with the next, a blank in
the place of its last character. -/
def attach (name : List Char) (names : List (List Char)) : Option (List (List Char)) :=
  if IsOpen name then
    match names with
    | [] => none
    | next :: more => some ((name.dropLast ++ ' ' :: next) :: more)
  else some (name :: names)

/-- What is read of printed names. -/
def readBack (names : List (List Char)) : Option (List (List Char)) :=
  names.foldr (fun name read => read.bind (attach name)) (some [])

theorem isOpen_cons (h : name ≠ []) : IsOpen (c :: name) ↔ IsOpen name := by
  obtain ⟨d, rest, rfl⟩ := List.exists_cons_of_ne_nil h
  simp [IsOpen]

theorem joinEscaped_cons (h : word.getLast? ≠ some ' ') (rest : List (List Char)) :
    joinEscaped (word :: rest) = (joinEscaped rest).bind (attach word) := by
  rw [joinEscaped]
  cases joinEscaped rest with
  | none => rfl
  | some names =>
    show (if word.getLast? = some '\\' then _ else some (word :: names)) = attach word names
    by_cases hlast : word.getLast? = some '\\'
    · have hopen : IsOpen word := .inr hlast
      exact (if_pos hlast).trans (if_pos hopen).symm
    · have hclosed : ¬ IsOpen word := not_or.mpr ⟨h, hlast⟩
      exact (if_neg hlast).trans (if_neg hclosed).symm

def extend (c : Char) : List (List Char) → List (List Char)
  | [] => []
  | first :: more => (c :: first) :: more

theorem attach_cons (h : name ≠ []) (c : Char) (names : List (List Char)) :
    attach (c :: name) names = (attach name names).map (extend c) := by
  unfold attach
  simp only [isOpen_cons h, List.dropLast_cons_of_ne_nil h]
  split
  · cases names <;> rfl
  · rfl

theorem joinEscaped_extend (h : word ≠ []) (c : Char) (rest : List (List Char)) :
    joinEscaped ((c :: word) :: rest) = (joinEscaped (word :: rest)).map (extend c) := by
  have hlast : (c :: word).getLast? = word.getLast? := by
    obtain ⟨d, tail, rfl⟩ := List.exists_cons_of_ne_nil h
    rfl
  rw [joinEscaped, joinEscaped, hlast, List.dropLast_cons_of_ne_nil h]
  cases joinEscaped rest with
  | none => rfl
  | some names =>
    dsimp only
    split
    · cases names <;> rfl
    · rfl

/-- An escaped blank before a name is read as the first character of the name. -/
theorem attach_backslash_attach (h : name ≠ []) (names : List (List Char)) :
    (attach name names).bind (attach ['\\']) = attach (' ' :: name) names := by
  rw [attach_cons h]
  unfold attach
  split
  · cases names <;> rfl
  · rfl

/-- However many words a name is spelled with, they are read as the one name. -/
theorem joinEscaped_words_escape (h : IsName name) (rest : List (List Char)) :
    joinEscaped (words (escape name) ++ rest) = (joinEscaped rest).bind (attach name) := by
  induction name with
  | nil => exact absurd rfl h.ne_nil
  | cons c name ih =>
    obtain ⟨hc, rfl | hname⟩ := h.cases
    · rcases hc with rfl | hc
      · rw [words_escape_blank]
        exact joinEscaped_cons (by decide) rest
      · have hlast : [c].getLast? ≠ some ' ' := by
          intro heq
          obtain rfl : c = ' ' := by simpa using heq
          exact absurd hc (by decide)
        rw [escape_cons hc, escape, Text.words_singleton hc]
        exact joinEscaped_cons hlast rest
    · rcases hc with rfl | hc
      · rw [words_escape_blank, List.cons_append, joinEscaped_cons (by decide), ih hname,
          Option.bind_assoc]
        simp only [attach_backslash_attach hname.ne_nil]
      · obtain ⟨word, more, hwords, hword, hextended⟩ := words_escape_cons hc hname
        have hread := ih hname
        rw [hwords, List.cons_append] at hread
        rw [hextended, List.cons_append, joinEscaped_extend hword, hread, Option.map_bind,
          funext (attach_cons hname.ne_nil c)]
        rfl

theorem joinEscaped_words_printNames (h : ∀ name ∈ names, IsName name) :
    joinEscaped (words (printNames names)) = readBack names := by
  rw [words_printNames]
  induction names with
  | nil => rfl
  | cons name rest ih =>
    obtain ⟨hname, hrest⟩ := List.forall_mem_cons.mp h
    rw [List.flatMap_cons, joinEscaped_words_escape hname, ih hrest]
    rfl

theorem length_readBack (h : readBack names = some out) :
    out.length + names.countP (IsOpen ·) = names.length := by
  induction names generalizing out with
  | nil =>
    cases h
    rfl
  | cons name rest ih =>
    obtain ⟨read, hread, hattach⟩ := Option.bind_eq_some_iff.mp h
    have hrest := ih hread
    unfold attach at hattach
    split at hattach
    · rename_i hopen
      cases read with
      | nil => cases hattach
      | cons next more =>
        cases hattach
        simp only [List.countP_cons, hopen, List.length_cons] at hrest ⊢
        simp
        omega
    · rename_i hclosed
      cases hattach
      simp only [List.countP_cons, hclosed, List.length_cons]
      simp
      omega

/-- Names are read as they were printed if none of them is open, and only then: each that is costs
one name. -/
theorem readBack_eq_iff : readBack names = some names ↔ ∀ name ∈ names, ¬ IsOpen name := by
  constructor
  · intro h
    have hcount : names.countP (IsOpen ·) = 0 := by
      have := length_readBack h
      omega
    simpa using hcount
  · intro h
    induction names with
    | nil => rfl
    | cons name rest ih =>
      obtain ⟨hname, hrest⟩ := List.forall_mem_cons.mp h
      have hattach : attach name rest = some (name :: rest) := if_neg hname
      have hread : (readBack rest).bind (attach name) = some (name :: rest) := by
        rw [ih hrest, Option.bind_some, hattach]
      exact hread

-- ---------------------------------------------------------------------------
-- Reading lines
-- ---------------------------------------------------------------------------

theorem cut?_print (h : IsTarget entry.target.toList) :
    Text.cut? mark entry.print =
      some (entry.target.toList, printNames (entry.dependencies.map (·.toList))) := by
  refine Text.cut?_append (by decide) fun start more htarget hmore hmark => ?_
  match more with
  | [] => exact hmore rfl
  | [c] => simp [mark] at hmark
  | c :: d :: more =>
    obtain ⟨rfl, rfl⟩ : ':' = c ∧ ' ' = d := by simpa [mark] using hmark
    exact h.unmarked ⟨start, more, by simp [htarget, mark]⟩

theorem mem_escape (h : c ∈ escape name) : c = '\\' ∨ c ∈ name := by
  induction name with
  | nil => cases h
  | cons d name ih =>
    by_cases hd : d = ' '
    · subst hd
      rw [escape_blank, List.mem_cons, List.mem_cons] at h
      rcases h with rfl | rfl | h
      · exact .inl rfl
      · exact .inr List.mem_cons_self
      · exact (ih h).imp_right (List.mem_cons_of_mem _)
    · rw [escape, if_neg hd, List.mem_cons] at h
      rcases h with rfl | h
      · exact .inr List.mem_cons_self
      · exact (ih h).imp_right (List.mem_cons_of_mem _)

theorem mem_printNames (h : c ∈ printNames names) :
    c = ' ' ∨ ∃ name ∈ names, c ∈ escape name := by
  induction names with
  | nil => cases h
  | cons name rest ih =>
    cases rest with
    | nil => exact .inr ⟨name, List.mem_cons_self, h⟩
    | cons next rest =>
      rcases List.mem_append.mp h with h | h
      · exact .inr ⟨name, List.mem_cons_self, h⟩
      · rcases List.mem_cons.mp h with rfl | h
        · exact .inl rfl
        · exact (ih h).imp_right fun ⟨other, hmem, hc⟩ => ⟨other, List.mem_cons_of_mem _ hmem, hc⟩

theorem oneLine_print (htarget : IsTarget entry.target.toList)
    (hnames : ∀ name ∈ entry.dependencies, IsName name.toList) :
    ∀ c ∈ entry.print, isLineEnd c = false := by
  have hblank : ∀ name ∈ entry.dependencies, ∀ c ∈ name.toList, isLineEnd c = false := by
    intro name hname c hc
    rw [← Bool.not_eq_true]
    intro hend
    rw [(hnames name hname).blank c hc (Text.isBlank_of_isLineEnd hend)] at hend
    exact absurd hend (by decide)
  intro c hc
  rcases List.mem_append.mp hc with hc | hc
  · exact htarget.oneLine c hc
  rcases List.mem_append.mp hc with hc | hc
  · simp only [mark, List.mem_cons, List.not_mem_nil, or_false] at hc
    rcases hc with rfl | rfl <;> decide
  rcases mem_printNames hc with rfl | ⟨name, hname, hc⟩
  · decide
  · obtain ⟨text, htext, rfl⟩ := List.mem_map.mp hname
    rcases mem_escape hc with rfl | hc
    · decide
    · exact hblank text htext c hc

theorem parseLine_print (htarget : IsTarget entry.target.toList)
    (hnames : ∀ name ∈ entry.dependencies, IsName name.toList) :
    parseLine entry.print = some ((readBack (entry.dependencies.map (·.toList))).map fun names =>
      ⟨entry.target, names.map String.ofList⟩) := by
  have hread : joinEscaped (words (printNames (entry.dependencies.map (·.toList)))) =
      readBack (entry.dependencies.map (·.toList)) :=
    joinEscaped_words_printNames (List.forall_mem_map.mpr hnames)
  rw [parseLine, cut?_print htarget]
  simp only [Option.map_some, hread, String.ofList_toList]

theorem parse_print (htargets : ∀ entry ∈ entries, IsTarget entry.target.toList)
    (hnames : ∀ entry ∈ entries, ∀ name ∈ entry.dependencies, IsName name.toList) :
    parse (print entries) = entries.mapM fun entry =>
      (readBack (entry.dependencies.map (·.toList))).map fun names =>
        ⟨entry.target, names.map String.ofList⟩ := by
  have hlines : Text.lines (print entries).toList = entries.map Entry.print := by
    rw [print, String.toList_ofList]
    induction entries with
    | nil => rfl
    | cons entry rest ih =>
      obtain ⟨htarget, htargets⟩ := List.forall_mem_cons.mp htargets
      obtain ⟨hname, hnames⟩ := List.forall_mem_cons.mp hnames
      rw [List.flatMap_cons, List.append_assoc, List.singleton_append,
        Text.lines_append_newline (oneLine_print htarget hname), ih htargets hnames, List.map_cons]
  have hparsed : (entries.map Entry.print).filterMap parseLine = entries.map fun entry =>
      (readBack (entry.dependencies.map (·.toList))).map fun names =>
        ⟨entry.target, names.map String.ofList⟩ := by
    rw [List.filterMap_map, ← List.filterMap_eq_map]
    exact List.filterMap_congr fun entry hmem =>
      parseLine_print (htargets entry hmem) (hnames entry hmem)
  rw [parse, hlines, hparsed, List.mapM_map]
  rfl

theorem mapM_eq_self_iff {f : α → Option α} {l : List α} :
    l.mapM f = some l ↔ ∀ a ∈ l, f a = some a := by
  induction l with
  | nil => simp
  | cons a rest ih =>
    rw [List.forall_mem_cons, ← ih, List.mapM_cons]
    cases f a with
    | none => simp
    | some b => cases rest.mapM f <;> simp

theorem entry_eq_iff : (readBack (entry.dependencies.map (·.toList))).map (fun names =>
      (⟨entry.target, names.map String.ofList⟩ : Entry)) = some entry ↔
    readBack (entry.dependencies.map (·.toList)) = some (entry.dependencies.map (·.toList)) := by
  obtain ⟨target, dependencies⟩ := entry
  simp only [Option.map_eq_some_iff, Entry.mk.injEq, true_and]
  constructor
  · rintro ⟨names, hread, rfl⟩
    have hnames : (names.map String.ofList).map (·.toList) = names := by simp [Function.comp_def]
    rw [hnames] at hread ⊢
    exact hread
  · intro hread
    exact ⟨_, hread, by simp [Function.comp_def]⟩

/-- A listing is read back as it was printed exactly if no name in it ends in a blank or in a
backslash. -/
theorem parse_print_iff (htargets : ∀ entry ∈ entries, IsTarget entry.target.toList)
    (hnames : ∀ entry ∈ entries, ∀ name ∈ entry.dependencies, IsName name.toList) :
    parse (print entries) = some entries ↔
      ∀ entry ∈ entries, ∀ name ∈ entry.dependencies, ¬ IsOpen name.toList := by
  rw [parse_print htargets hnames, mapM_eq_self_iff]
  refine forall₂_congr fun entry _ => ?_
  rw [entry_eq_iff, readBack_eq_iff, List.forall_mem_map]

/-- An open name takes in the next one. -/
example : parse (print [⟨"a", ["b ", "c"]⟩]) = some [⟨"a", ["b c"]⟩] := by cbv

namespace Printed

/-- Names with blanks at the front, side by side, and behind a backslash. -/
def sample : List Entry := [
  ⟨"out/lib c.rmeta", ["src/lib.rs", "  gen\\ a: b.rs", "C:\\src\\x.rs"]⟩,
  ⟨"nothing", []⟩]

end Printed

open Printed in
theorem parse_print_sample :
    (∀ entry ∈ sample, IsTarget entry.target.toList) ∧
    (∀ entry ∈ sample, ∀ name ∈ entry.dependencies, IsName name.toList) ∧
    parse (print sample) = some sample := by
  have hunmarked : ∀ entry ∈ sample, ¬ mark <:+: entry.target.toList := by
    simp [sample, mark, List.infix_cons_iff]
  have hlines : (sample.all fun entry => entry.target.toList.all fun c => !isLineEnd c) = true := by
    decide +kernel
  have htargets : ∀ entry ∈ sample, IsTarget entry.target.toList := fun entry hentry =>
    ⟨hunmarked entry hentry, fun c hc => by
      simpa using List.all_eq_true.mp (List.all_eq_true.mp hlines entry hentry) c hc⟩
  have hnames : ∀ entry ∈ sample, ∀ name ∈ entry.dependencies, IsName name.toList := by
    decide +kernel
  exact ⟨htargets, hnames, (parse_print_iff htargets hnames).mpr (by decide +kernel)⟩

end UnsafeAudit.DepInfo
