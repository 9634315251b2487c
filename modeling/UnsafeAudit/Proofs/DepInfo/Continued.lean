import Mathlib.Data.List.Forall2
import Mathlib.Data.List.Infix
import UnsafeAudit.DepInfo.Basic
import UnsafeAudit.Proofs.Text.Lines

/-!
# Names over several words

The words behind the mark of a line are cut into runs, one behind every word
that does not end in a backslash, and each run spells one name. A listing is
malformed if the last word of some line ends in a backslash, and otherwise it
has an entry for each line with a mark, in which nothing is lost
(`parse_reads_runs`).
-/

namespace UnsafeAudit.DepInfo

open Text (IsFirstCut words)

variable {word last line : List Char} {ws names run : List (List Char)}
  {runs : List (List (List Char))} {text : String} {entries : List Entry}

-- ---------------------------------------------------------------------------
-- Runs of words
-- ---------------------------------------------------------------------------

/-- A word that ends in a backslash goes on in the next one. -/
def Continues (word : List Char) : Prop := word.getLast? = some '\\'

instance : DecidablePred Continues := fun _ => inferInstanceAs (Decidable (_ = _))

def IsRun (run : List (List Char)) : Prop :=
  ∃ front last, run = front ++ [last] ∧ (∀ word ∈ front, Continues word) ∧ ¬ Continues last

/-- Words are cut into runs: a cut stands behind every word that does not go on. -/
structure IsCut (ws : List (List Char)) (runs : List (List (List Char))) : Prop where
  flatten : runs.flatten = ws
  isRun : ∀ run ∈ runs, IsRun run

/-- The name that a run spells: its words with a blank between each two, all but the last without
the backslash at their end. -/
def spelledBy (run : List (List Char)) : List Char :=
  [' '].intercalate (run.dropLast.map (·.dropLast) ++ run.getLast?.toList)

theorem IsRun.cons (h : IsRun run) (hword : Continues word) :
    IsRun (word :: run) ∧ spelledBy (word :: run) = word.dropLast ++ ' ' :: spelledBy run := by
  obtain ⟨front, last, rfl, hfront, hlast⟩ := h
  refine ⟨⟨word :: front, last, rfl, List.forall_mem_cons.mpr ⟨hword, hfront⟩, hlast⟩, ?_⟩
  have hname : ∀ front : List (List Char), spelledBy (front ++ [last]) =
      [' '].intercalate (front.map (·.dropLast) ++ [last]) := by
    intro front
    rw [spelledBy, List.dropLast_concat, List.getLast?_concat]
    rfl
  rw [hname, ← List.cons_append, hname]
  cases front <;> simp [List.intercalate]

theorem isRun_singleton (h : ¬ Continues word) : IsRun [word] := ⟨[], word, rfl, nofun, h⟩

theorem IsRun.countP (h : IsRun run) : run.countP (¬ Continues ·) = 1 := by
  obtain ⟨front, last, rfl, hfront, hlast⟩ := h
  have hnone : front.countP (¬ Continues ·) = 0 := by simpa using hfront
  rw [List.countP_append, hnone]
  simp [hlast]

theorem IsCut.length (h : IsCut ws runs) : runs.length = ws.countP (¬ Continues ·) := by
  have hone : runs.map (List.countP (¬ Continues ·)) = runs.map fun _ => 1 :=
    List.map_congr_left fun run hrun => (h.isRun run hrun).countP
  rw [← h.flatten, List.countP_flatten, hone, List.map_const', List.sum_replicate_nat, Nat.mul_one]

-- ---------------------------------------------------------------------------
-- Reading words
-- ---------------------------------------------------------------------------

theorem exists_isCut (h : ∀ last, ws.getLast? = some last → ¬ Continues last) :
    ∃ runs, IsCut ws runs ∧ joinEscaped ws = some (runs.map spelledBy) := by
  induction ws with
  | nil => exact ⟨[], ⟨rfl, nofun⟩, rfl⟩
  | cons word rest ih =>
    have hrest : ∀ last, rest.getLast? = some last → ¬ Continues last := by
      intro last hlast
      refine h last ?_
      rw [List.getLast?_cons, hlast]
      rfl
    obtain ⟨runs, hcut, hjoin⟩ := ih hrest
    by_cases hword : Continues word
    · cases runs with
      | nil =>
        obtain rfl : [] = rest := hcut.flatten
        exact absurd hword (h word rfl)
      | cons run more =>
        obtain ⟨hrun, hmore⟩ := List.forall_mem_cons.mp hcut.isRun
        obtain ⟨hlonger, hspelled⟩ := hrun.cons hword
        refine ⟨(word :: run) :: more, ⟨?_, List.forall_mem_cons.mpr ⟨hlonger, hmore⟩⟩, ?_⟩
        · rw [← hcut.flatten]
          rfl
        · rw [joinEscaped, hjoin, List.map_cons, List.map_cons, hspelled]
          exact if_pos hword
    · refine ⟨[word] :: runs, ⟨?_, ?_⟩, ?_⟩
      · rw [List.flatten_cons, hcut.flatten]
        rfl
      · exact List.forall_mem_cons.mpr ⟨isRun_singleton hword, hcut.isRun⟩
      · rw [joinEscaped, hjoin]
        refine (if_neg hword).trans ?_
        simp [spelledBy, List.intercalate]

theorem joinEscaped_eq_none (hlast : ws.getLast? = some last) (h : Continues last) :
    joinEscaped ws = none := by
  induction ws with
  | nil => cases hlast
  | cons word rest ih =>
    cases rest with
    | nil =>
      obtain rfl : word = last := by simpa using hlast
      rw [joinEscaped, joinEscaped]
      exact if_pos h
    | cons next rest =>
      rw [joinEscaped, ih (by simpa using hlast)]

theorem joinEscaped_eq_none_iff :
    joinEscaped ws = none ↔ ∃ last, ws.getLast? = some last ∧ Continues last := by
  refine ⟨fun h => ?_, fun ⟨last, hlast, hcontinues⟩ => joinEscaped_eq_none hlast hcontinues⟩
  refine Classical.byContradiction fun hnot => ?_
  obtain ⟨runs, -, hjoin⟩ := exists_isCut fun last hlast hcontinues =>
    hnot ⟨last, hlast, hcontinues⟩
  rw [h] at hjoin
  cases hjoin

theorem exists_isCut_of_joinEscaped (h : joinEscaped ws = some names) :
    ∃ runs, IsCut ws runs ∧ names = runs.map spelledBy := by
  obtain ⟨runs, hcut, hjoin⟩ := exists_isCut fun last hlast hcontinues => by
    rw [joinEscaped_eq_none hlast hcontinues] at h
    cases h
  exact ⟨runs, hcut, Option.some.inj (h.symm.trans hjoin)⟩

-- ---------------------------------------------------------------------------
-- Reading lines
-- ---------------------------------------------------------------------------

def Dangles (line : List Char) : Prop :=
  ∃ target rest last, IsFirstCut mark line target rest ∧
    (words rest).getLast? = some last ∧ Continues last

/-- An entry says what stands on a line: the target before the mark, and behind it a name for each
run of words. -/
def Entry.Reads (entry : Entry) (line : List Char) : Prop :=
  ∃ rest runs, IsFirstCut mark line entry.target.toList rest ∧ IsCut (words rest) runs ∧
    entry.dependencies = (runs.map spelledBy).map String.ofList ∧
    entry.dependencies.length = (words rest).countP (¬ Continues ·)

theorem parseLine_eq_none_iff : parseLine line = none ↔ ¬ mark <:+: line := by
  rw [parseLine, Option.map_eq_none_iff, ← Text.isSome_cut?_iff]
  simp

theorem parseLine_eq_some_none_iff : parseLine line = some none ↔ Dangles line := by
  constructor
  · intro h
    obtain ⟨⟨target, rest⟩, hcut, hnone⟩ := Option.map_eq_some_iff.mp h
    obtain ⟨last, hlast, hcontinues⟩ :=
      joinEscaped_eq_none_iff.mp (Option.map_eq_none_iff.mp hnone)
    exact ⟨target, rest, last, Text.cut?_eq_some_iff.mp hcut, hlast, hcontinues⟩
  · rintro ⟨target, rest, last, hcut, hlast, hcontinues⟩
    simp only [parseLine, Text.cut?_eq_some_iff.mpr hcut, Option.map_some,
      joinEscaped_eq_none hlast hcontinues, Option.map_none]

theorem reads_of_parseLine {entry : Entry} (h : parseLine line = some (some entry)) :
    entry.Reads line := by
  obtain ⟨⟨target, rest⟩, hcut, hsome⟩ := Option.map_eq_some_iff.mp h
  obtain ⟨names, hjoin, rfl⟩ := Option.map_eq_some_iff.mp hsome
  obtain ⟨runs, hruns, rfl⟩ := exists_isCut_of_joinEscaped hjoin
  refine ⟨rest, runs, ?_, hruns, rfl, ?_⟩
  · rw [String.toList_ofList]
    exact Text.cut?_eq_some_iff.mp hcut
  · rw [List.length_map, List.length_map, hruns.length]

-- ---------------------------------------------------------------------------
-- Reading texts
-- ---------------------------------------------------------------------------

theorem mapM_id_eq_some_iff {found : List (Option Entry)} :
    found.mapM id = some entries ↔ found = entries.map some := by
  induction found generalizing entries with
  | nil => cases entries <;> simp
  | cons first rest ih =>
    simp only [List.mapM_cons, Option.bind_eq_bind, Option.bind_eq_some_iff, ih, id_eq]
    cases entries with
    | nil => simp [pure]
    | cons entry more => simp [pure]

theorem mapM_id_eq_none_iff {found : List (Option Entry)} : found.mapM id = none ↔ none ∈ found := by
  induction found with
  | nil => simp
  | cons first rest ih =>
    simp only [List.mapM_cons, Option.bind_eq_bind, Option.bind_eq_none_iff, id_eq]
    cases first with
    | none => simp
    | some entry => simp [← ih, Option.eq_none_iff_forall_ne_some]

theorem forall₂_reads {lines : List (List Char)} (h : lines.filterMap parseLine = entries.map some) :
    List.Forall₂ (fun line entry => entry.Reads line) (lines.filter (mark <:+: ·)) entries := by
  induction lines generalizing entries with
  | nil =>
    obtain rfl : entries = [] := List.map_eq_nil_iff.mp h.symm
    exact .nil
  | cons line lines ih =>
    rw [List.filterMap_cons] at h
    cases hline : parseLine line with
    | none =>
      rw [List.filter_cons_of_neg (by simpa using parseLine_eq_none_iff.mp hline)]
      exact ih (by simpa [hline] using h)
    | some found =>
      have hmark : mark <:+: line := by
        by_contra hnot
        rw [parseLine_eq_none_iff.mpr hnot] at hline
        cases hline
      rw [List.filter_cons_of_pos (by simpa using hmark)]
      cases entries with
      | nil => simp [hline] at h
      | cons entry more =>
        obtain ⟨rfl, hmore⟩ : found = some entry ∧ lines.filterMap parseLine = more.map some := by
          simpa [hline] using h
        exact .cons (reads_of_parseLine hline) (ih hmore)

/-- A listing is malformed exactly if the last word behind the mark of some line ends in a
backslash. Otherwise it has an entry for each line with a mark, which holds the text before the mark
and a name for each word that does not end in a backslash. -/
theorem parse_reads_runs (text : String) :
    (parse text = none ↔ ∃ line ∈ Text.lines text.toList, Dangles line) ∧
    ∀ entries, parse text = some entries →
      List.Forall₂ (fun line entry => entry.Reads line)
        ((Text.lines text.toList).filter (mark <:+: ·)) entries := by
  refine ⟨?_, fun entries h => forall₂_reads (mapM_id_eq_some_iff.mp h)⟩
  rw [parse, mapM_id_eq_none_iff, List.mem_filterMap]
  exact exists_congr fun line => and_congr_right fun _ => parseLine_eq_some_none_iff

/-- Names over four words, over two and over one, between lines without a mark. -/
def chained : String := "# a\nt: x\\ y\\ \\ z: b\\\\ c d\nx.rs:"

theorem parse_reads_runs_chained :
    parse chained = some [⟨"t", ["x y  z:", "b\\ c", "d"]⟩] ∧
    List.Forall₂ (fun line (entry : Entry) => entry.Reads line)
      ((Text.lines chained.toList).filter (mark <:+: ·)) [⟨"t", ["x y  z:", "b\\ c", "d"]⟩] := by
  have hparse : parse chained = some [⟨"t", ["x y  z:", "b\\ c", "d"]⟩] := by decide +kernel
  exact ⟨hparse, (parse_reads_runs chained).2 _ hparse⟩

end UnsafeAudit.DepInfo
