import UnsafeAudit.Proofs.Tree.Growth

/-!
# Drawn trees

The vines of a line are read in columns, and each column says of the package above the line, or of
the line itself, whether its group goes on below (`walk_drawn`). The walk knows this before it comes
to the lines. So the invariant is on lines and on what follows them: the levels at which a line is
drawn foretell at which depths the lines behind it go on (`DrawnAt`).
-/

namespace UnsafeAudit

/-- What a column of four characters shows. -/
inductive Vine
  | blank
  | down
  | tee
  | ell
  deriving DecidableEq, Repr

def Vine.text (glyphs : Glyphs) : Vine → List Char
  | .blank => [' ', ' ', ' ', ' ']
  | .down => [glyphs.down, ' ', ' ', ' ']
  | .tee => [glyphs.tee, glyphs.right, glyphs.right, ' ']
  | .ell => [glyphs.ell, glyphs.right, glyphs.right, ' ']

namespace TreeLine

/-- The characters of one column of the vines, the first column being number 0. -/
def column (line : TreeLine) (c : Nat) : List Char := (line.vines.toList.drop (4 * c)).take 4

def Shows (glyphs : Glyphs) (line : TreeLine) (c : Nat) (vine : Vine) : Prop :=
  line.column c = vine.text glyphs

end TreeLine

namespace TreeLines

/-- Whether the group of a package line of some depth goes on in the lines that follow: behind all
lines below the package stands the line of another package, and no header. -/
def goesOn (depth : Nat) (after : List TreeLine) : Bool :=
  match behind depth after with
  | .package line :: _ => line.depth = depth
  | _ => false

structure Drawn (glyphs : Glyphs) (lines : List TreeLine) : Prop where
  /-- A package line has a column for each level above the package. The last one branches off to
  the package, and goes on if its group does. -/
  package {before line after} : lines = before ++ .package line :: after →
    line.vines.length = 4 * line.depth ∧ ∀ c, line.depth = c + 1 →
      TreeLine.Shows glyphs (.package line) c (if goesOn line.depth after then .tee else .ell)
  /-- A header has a column for each level above the package under which it stands. -/
  group {before line after} : lines = before ++ .group line :: after →
    ∃ depth, depthOf after = depth + 1 ∧ line.vines.length = 4 * depth
  /-- Every line stands below one package of each smaller depth, and the column of that depth goes
  on if the group of that package does. -/
  ancestor {before line after depth} : lines = before ++ line :: after →
    depth < depthOf (line :: after) →
    ∃ first above between, before = first ++ .package above :: between ∧ above.depth = depth ∧
      below depth (between ++ line :: after) = between ++ line :: below depth after ∧
      ∀ c, depth = c + 1 → TreeLine.Shows glyphs line c
        (if goesOn depth (between ++ line :: after) then .down else .blank)
  /-- What goes on downwards meets the next line. -/
  connected {before line after c} : lines = before ++ line :: after →
    line.Shows glyphs c .down ∨ line.Shows glyphs c .tee →
    ∃ next rest, after = next :: rest ∧
      (next.Shows glyphs c .down ∨ next.Shows glyphs c .tee ∨ next.Shows glyphs c .ell)

theorem goesOn_append (h : below depth (xs ++ ys) = xs ++ below depth ys) :
    goesOn depth (xs ++ ys) = goesOn depth ys := by
  rw [goesOn, goesOn, behind_append h]

theorem below_cons (h : depth < depthOf (line :: rest)) :
    below depth (line :: rest) = line :: below depth rest := by
  rw [below, if_pos h]

theorem goesOn_cons (h : depth < depthOf (line :: rest)) :
    goesOn depth (line :: rest) = goesOn depth rest := by
  have hbelow : below depth ([line] ++ rest) = [line] ++ below depth rest := below_cons h
  exact goesOn_append hbelow

/-- In front of lines that do not stand below it, a group goes on if the first of them is a package
line of its depth. -/
theorem goesOn_eq_true_iff (h : depthOf lines ≤ depth) :
    goesOn depth lines = true ↔ ∃ line rest, lines = .package line :: rest ∧ line.depth = depth := by
  rw [goesOn, behind_eq_self h]
  match lines with
  | [] => simp
  | .group line :: rest => simp
  | .package line :: rest => simp

end TreeLines

-- ---------------------------------------------------------------------------
-- Columns
-- ---------------------------------------------------------------------------

namespace Vines

theorem passing_eq (glyphs : Glyphs) (continues : Bool) :
    passing glyphs continues = (if continues then Vine.down else .blank).text glyphs := by
  cases continues <;> rfl

theorem branching_eq (glyphs : Glyphs) (continues : Bool) :
    branching glyphs continues = (if continues then Vine.tee else .ell).text glyphs := by
  cases continues <;> rfl

theorem length_columns (glyphs : Glyphs) (levels : List Bool) :
    (columns glyphs levels).length = 4 * levels.length := by
  fun_induction columns glyphs levels with
  | case1 => rfl
  | case2 last => rfl
  | case3 level rest _ ih => simp [passing, ih]; omega

theorem column_columns (glyphs : Glyphs) (levels : List Bool) (h : c < levels.length) :
    ((columns glyphs levels).drop (4 * c)).take 4 =
      if c + 1 = levels.length then branching glyphs levels[c] else passing glyphs levels[c] := by
  fun_induction columns glyphs levels generalizing c with
  | case1 => simp at h
  | case2 last =>
    obtain rfl : c = 0 := by simpa using h
    rfl
  | case3 level rest hrest ih =>
    have hne : rest ≠ [] := hrest
    cases c with
    | zero => simp [passing, hne]
    | succ c => simpa [passing, Nat.mul_succ] using ih (by simpa using h)

theorem length_passing (glyphs : Glyphs) (levels : List Bool) :
    (levels.flatMap (passing glyphs)).length = 4 * levels.length := by
  induction levels with
  | nil => rfl
  | cons level rest ih => simp [passing, ih]; omega

theorem column_passing (glyphs : Glyphs) (levels : List Bool) (h : c < levels.length) :
    ((levels.flatMap (passing glyphs)).drop (4 * c)).take 4 = passing glyphs levels[c] := by
  induction levels generalizing c with
  | nil => simp at h
  | cons level rest ih =>
    cases c with
    | zero => simp [passing]
    | succ c => simpa [passing, Nat.mul_succ] using ih (by simpa using h)

end Vines

-- ---------------------------------------------------------------------------
-- What the levels foretell
-- ---------------------------------------------------------------------------

open TreeLines (goesOn depthOf)

/-- At each depth, the lines go on if the level above that depth says so. -/
def Foretold (levels : List Bool) (lines : List TreeLine) : Prop :=
  ∀ c (h : c < levels.length), goesOn (c + 1) lines = levels[c]

inductive DrawnAt (options : TreeOptions) (levels : List Bool) :
    TreeLine → List TreeLine → Prop
  | package {line : PackageLine} : line.depth = levels.length →
      line.vines = Vines.package options levels → depthOf after ≤ levels.length + 1 →
      Foretold levels after → DrawnAt options levels (.package line) after
  | group {line : GroupLine} : line.vines = Vines.group options levels →
      depthOf after = levels.length + 1 → Foretold levels after →
      DrawnAt options levels (.group line) after

def AllDrawn (options : TreeOptions) : List TreeLine → Prop
  | [] => True
  | line :: rest => (∃ levels, DrawnAt options levels line rest) ∧ AllDrawn options rest

/-- A child goes on if another one follows it with no header between. -/
def Branch.startsWithChild : List Branch → Bool
  | .child _ _ :: _ => true
  | _ => false

def Branch.Flagged : List Branch → Prop
  | [] => True
  | .header _ :: rest => Flagged rest
  | .child _ continues :: rest => continues = startsWithChild rest ∧ Flagged rest

def Outline.Flagged : Outline → Prop
  | nil => True
  | header _ rest => rest.Flagged
  | child _ continues below rest =>
    continues = Branch.startsWithChild rest.branches ∧ below.Flagged ∧ rest.Flagged

namespace Branch

theorem startsWithChild_children_append (ids : List PackageId)
    (h : startsWithChild rest = false) :
    startsWithChild (children ids ++ rest) = !ids.isEmpty := by
  cases ids with
  | nil => exact h
  | cons id ids => rfl

theorem flagged_children_append (ids : List PackageId) (hs : startsWithChild rest = false)
    (h : Flagged rest) : Flagged (children ids ++ rest) := by
  induction ids with
  | nil => exact h
  | cons id ids ih => exact ⟨(startsWithChild_children_append ids hs).symm, ih⟩

theorem flagged_group_append (kind : DependencyKind) (h : kind.group?.isSome) (ids : List PackageId)
    (hrest : startsWithChild rest = false ∧ Flagged rest) :
    startsWithChild (group kind ids ++ rest) = false ∧ Flagged (group kind ids ++ rest) := by
  cases ids with
  | nil => exact hrest
  | cons id ids =>
    rw [group_cons h]
    exact ⟨rfl, flagged_children_append (id :: ids) hrest.1 hrest.2⟩

end Branch

theorem DependencyGraph.flagged_branches (graph : DependencyGraph) (direction : Direction)
    (id : PackageId) : Branch.Flagged (graph.branches direction id) := by
  have hnil : Branch.startsWithChild [] = false ∧ Branch.Flagged [] := ⟨rfl, trivial⟩
  rw [branches_eq_groups]
  have htarget := Branch.flagged_group_append .targetSpecific rfl
    (graph.neighbors id direction .targetSpecific) hnil
  have hdev := Branch.flagged_group_append .development rfl
    (graph.neighbors id direction .development) htarget
  have hbuild := Branch.flagged_group_append .build rfl
    (graph.neighbors id direction .build) hdev
  exact Branch.flagged_children_append _ hbuild.1 hbuild.2

theorem Grows.flagged {graph : DependencyGraph}
    (h : Grows graph direction all path shown branches o) (hb : Branch.Flagged branches) :
    o.Flagged := by
  induction h with
  | nil => trivial
  | header _ ih => exact ih hb
  | listed _ hrest ih => exact ⟨hrest.branches_eq ▸ hb.1, trivial, ih hb.2⟩
  | expanded _ _ _ hrest ihb ihr =>
    exact ⟨hrest.branches_eq ▸ hb.1, ihb (graph.flagged_branches direction _), ihr hb.2⟩

variable {options : TreeOptions} {verdictOf : PackageId → Verdict} {o : Outline}

theorem Foretold.append_lines (h : Foretold levels tail) (ho : o.Headed)
    (hl : levels.length ≤ outer.length) :
    Foretold levels (o.lines options verdictOf outer ++ tail) := by
  intro c hc
  rw [TreeLines.goesOn_append (Outline.below_lines options verdictOf ho (by omega) tail), h c hc]

/-- Behind a child and all below it, the lines go on at the depth of the child as it says. -/
theorem Foretold.concat {id : PackageId} (h : Foretold levels tail)
    (ho : (Outline.child id continues below o).Headed)
    (hf : (Outline.child id continues below o).Flagged) (ht : depthOf tail ≤ levels.length) :
    Foretold (levels ++ [continues]) (o.lines options verdictOf levels ++ tail) := by
  intro c hc
  by_cases hlast : c < levels.length
  · rw [List.getElem_append_left hlast]
    exact h.append_lines ho.2 (Nat.le_refl _) c hlast
  · obtain rfl : c = levels.length := by simp at hc; omega
    rw [List.getElem_concat_length rfl, hf.1, Bool.eq_iff_iff, TreeLines.goesOn_eq_true_iff
      (Outline.depthOf_lines_le options verdictOf ho.2 ht)]
    cases o with
    | nil =>
      refine iff_of_false ?_ (by simp [Outline.branches, Branch.startsWithChild])
      rintro ⟨line, rest, htail, hdepth⟩
      obtain rfl : tail = .package line :: rest := htail
      simp only [depthOf] at ht
      omega
    | header kind rest => simp [Outline.lines, Outline.branches, Branch.startsWithChild]
    | child id continues below rest => simp [Outline.lines, Outline.branches, Branch.startsWithChild]

theorem Outline.allDrawn (h : o.Headed) (hf : o.Flagged) (ht : depthOf tail ≤ levels.length)
    (hl : Foretold levels tail) (hd : AllDrawn options tail) :
    AllDrawn options (o.lines options verdictOf levels ++ tail) := by
  induction o generalizing levels tail with
  | nil => exact hd
  | header kind rest ih =>
    have hdepth := depthOf_header_lines options verdictOf h levels tail
    exact ⟨⟨levels, .group rfl hdepth (hl.append_lines h.2 (Nat.le_refl _))⟩,
      ih h.2 hf ht hl hd⟩
  | child id continues below rest ihb ihr =>
    have hrest : depthOf (rest.lines options verdictOf levels ++ tail) ≤
        (levels ++ [continues]).length := by
      simpa using depthOf_lines_le options verdictOf h.2 ht
    have hinner : Foretold (levels ++ [continues]) (rest.lines options verdictOf levels ++ tail) :=
      hl.concat h hf ht
    rw [lines, List.cons_append, List.cons_append, List.append_assoc]
    exact ⟨⟨levels ++ [continues], .package rfl rfl (depthOf_lines_le options verdictOf h.1 hrest)
        (hinner.append_lines h.1 (Nat.le_refl _))⟩,
      ihb h.1 hf.2.1 hrest hinner (ihr h.2 hf.2.2 ht hl hd)⟩

-- ---------------------------------------------------------------------------
-- What drawn lines show
-- ---------------------------------------------------------------------------

theorem AllDrawn.of_append (h : AllDrawn options (before ++ line :: after)) :
    (∃ levels, DrawnAt options levels line after) ∧ AllDrawn options after := by
  induction before with
  | nil => exact h
  | cons other before ih => exact ih h.2

theorem AllDrawn.exists_above (h : AllDrawn options (before ++ line :: after))
    (hfirst : depthOf (before ++ line :: after) = 0) (hdepth : depth < depthOf (line :: after)) :
    ∃ first above between, before = first ++ .package above :: between ∧ above.depth = depth ∧
      TreeLines.below depth (between ++ line :: after) =
        between ++ line :: TreeLines.below depth after := by
  induction before using List.reverseRecOn generalizing line after with
  | nil =>
    rw [List.nil_append] at hfirst
    omega
  | append_singleton before other ih =>
    rw [List.append_assoc, List.singleton_append] at h hfirst
    obtain ⟨⟨levels, hother⟩, -⟩ := h.of_append
    -- the line before is the package in question, or it stands below that package itself
    have hcases : (∃ above, other = .package above ∧ above.depth = depth) ∨
        depth < depthOf (other :: line :: after) := by
      cases hother with
      | @package _ above hlevels _ hafter _ =>
        rcases Nat.lt_trichotomy above.depth depth with hlt | heq | hgt
        · omega
        · exact .inl ⟨above, rfl, heq⟩
        · exact .inr hgt
      | group _ _ _ => exact .inr hdepth
    rcases hcases with ⟨above, rfl, habove⟩ | hbelow
    · exact ⟨before, above, [], rfl, habove, TreeLines.below_cons hdepth⟩
    · obtain ⟨first, above, between, rfl, habove, hbetween⟩ := ih h hfirst hbelow
      refine ⟨first, above, between ++ [other], by simp, habove, ?_⟩
      rw [List.append_assoc, List.singleton_append, hbetween, TreeLines.below_cons hdepth]
      simp

namespace TreeLine

variable {charset : Charset} {v w : Vine}

theorem Shows.unique (hv : Shows charset.glyphs line c v) (hw : Shows charset.glyphs line c w) :
    v = w := by
  have htext : v.text charset.glyphs = w.text charset.glyphs := hv.symm.trans hw
  cases charset <;> cases v <;> cases w <;> first | rfl | exact absurd htext (by decide)

theorem Shows.lt_length (h : Shows glyphs line c v) : 4 * c < line.vines.length := by
  have hlength := congrArg List.length h
  have hfour : (v.text glyphs).length = 4 := by cases v <;> rfl
  rw [hfour, column, List.length_take, List.length_drop, String.length_toList] at hlength
  omega

end TreeLine

namespace DrawnAt

variable (h : DrawnAt options levels line after) (hp : options.linePrefix = .indent)
include h hp

/-- In front of the last column the levels above pass by. -/
theorem shows_passing (hc : c + 1 < depthOf (line :: after)) :
    line.Shows options.charset.glyphs c (if goesOn (c + 1) after then .down else .blank) := by
  rw [TreeLine.Shows, ← Vines.passing_eq]
  cases h with
  | package hdepth hvines _ hf =>
    have hlt : c < levels.length := by simp only [depthOf] at hc; omega
    have hne : c + 1 ≠ levels.length := by simp only [depthOf] at hc; omega
    rw [TreeLine.column, TreeLine.vines, hvines, Vines.package, hp, String.toList_ofList,
      Vines.column_columns _ _ hlt, if_neg hne, hf c hlt]
  | group hvines hdepth hf =>
    have hlt : c < levels.length := by simp only [depthOf] at hc; omega
    rw [TreeLine.column, TreeLine.vines, hvines, Vines.group, hp, String.toList_ofList,
      Vines.column_passing _ _ hlt, hf c hlt]

theorem length_vines : line.vines.length = 4 * levels.length := by
  cases h with
  | package _ hvines _ _ =>
    rw [TreeLine.vines, hvines, Vines.package, hp, String.length_ofList, Vines.length_columns]
  | group hvines _ _ =>
    rw [TreeLine.vines, hvines, Vines.group, hp, String.length_ofList, Vines.length_passing]

end DrawnAt

theorem DrawnAt.shows_branching {line : PackageLine}
    (h : DrawnAt options levels (.package line) after) (hp : options.linePrefix = .indent)
    (hc : line.depth = c + 1) :
    TreeLine.Shows options.charset.glyphs (.package line) c
      (if goesOn (c + 1) after then .tee else .ell) := by
  cases h with
  | package hdepth hvines _ hf =>
    have hlt : c < levels.length := by omega
    rw [TreeLine.Shows, ← Vines.branching_eq, TreeLine.column, TreeLine.vines, hvines,
      Vines.package, hp, String.toList_ofList, Vines.column_columns _ _ hlt,
      if_pos (hc.symm.trans hdepth), hf c hlt]

/-- A column that goes on downwards is that of a level whose lines go on. -/
theorem DrawnAt.goesOn_of_shows (h : DrawnAt options levels line after)
    (hp : options.linePrefix = .indent)
    (hs : line.Shows options.charset.glyphs c .down ∨ line.Shows options.charset.glyphs c .tee) :
    goesOn (c + 1) after = true := by
  have hlt : 4 * c < 4 * levels.length := by
    rw [← h.length_vines hp]
    exact hs.elim TreeLine.Shows.lt_length TreeLine.Shows.lt_length
  by_contra hstop
  have hvine : ∀ vine, line.Shows options.charset.glyphs c vine → vine = .down ∨ vine = .tee :=
    fun vine hvine => hs.imp hvine.unique hvine.unique
  by_cases hc : c + 1 < depthOf (line :: after)
  · have hshows := h.shows_passing hp hc
    rw [if_neg hstop] at hshows
    simpa using hvine .blank hshows
  · cases h with
    | @package _ line hdepth hvines hafter hf =>
      have hlast : line.depth = c + 1 := by simp only [depthOf] at hc; omega
      have hshows := (DrawnAt.package hdepth hvines hafter hf).shows_branching hp hlast
      rw [if_neg hstop] at hshows
      simpa using hvine .ell hshows
    | group _ hdepth _ =>
      simp only [depthOf] at hc
      omega

theorem AllDrawn.drawn (h : AllDrawn options lines) (hp : options.linePrefix = .indent)
    (hfirst : depthOf lines = 0) : TreeLines.Drawn options.charset.glyphs lines where
  package {before line after} hl := by
    obtain ⟨⟨levels, hline⟩, -⟩ := (hl ▸ h).of_append
    have hlength := hline.length_vines hp
    have hdepth : line.depth = levels.length := by
      cases hline
      assumption
    exact ⟨hdepth ▸ hlength, fun c hc => hc ▸ hline.shows_branching hp hc⟩
  group {before line after} hl := by
    obtain ⟨⟨levels, hline⟩, -⟩ := (hl ▸ h).of_append
    have hlength := hline.length_vines hp
    have hdepth : depthOf after = levels.length + 1 := by
      cases hline
      assumption
    exact ⟨levels.length, hdepth, hlength⟩
  ancestor {before line after depth} hl hdepth := by
    subst hl
    obtain ⟨⟨levels, hline⟩, -⟩ := h.of_append
    obtain ⟨first, above, between, hbefore, habove, hbetween⟩ := h.exists_above hfirst hdepth
    refine ⟨first, above, between, hbefore, habove, hbetween, fun c hc => ?_⟩
    subst hc
    have hgoesOn : goesOn (c + 1) (between ++ line :: after) = goesOn (c + 1) after := by
      rw [← TreeLines.below_cons hdepth] at hbetween
      rw [TreeLines.goesOn_append hbetween, TreeLines.goesOn_cons hdepth]
    rw [hgoesOn]
    exact hline.shows_passing hp hdepth
  connected {before line after c} hl hs := by
    obtain ⟨⟨levels, hline⟩, hafter⟩ := (hl ▸ h).of_append
    have hgoesOn := hline.goesOn_of_shows hp hs
    match after, hafter with
    | [], _ => simp [goesOn, TreeLines.behind, TreeLines.below] at hgoesOn
    | next :: rest, ⟨⟨levels', hnext⟩, _⟩ =>
      refine ⟨next, rest, rfl, ?_⟩
      by_cases hc : c + 1 < depthOf (next :: rest)
      · rw [TreeLines.goesOn_cons hc] at hgoesOn
        have hshows := hnext.shows_passing hp hc
        rw [if_pos hgoesOn] at hshows
        exact .inl hshows
      · obtain ⟨found, more, heq, hdepth⟩ :=
          (TreeLines.goesOn_eq_true_iff (Nat.le_of_not_lt hc)).mp hgoesOn
        obtain ⟨rfl, rfl⟩ := List.cons.inj heq
        have hshows := hnext.shows_branching hp hdepth
        split at hshows
        · exact .inr (.inl hshows)
        · exact .inr (.inr hshows)

-- ---------------------------------------------------------------------------
-- Walks
-- ---------------------------------------------------------------------------

/-- Below an occurrence stands nothing, or all that an expanded package has. -/
theorem Grows.below_of_mem {graph : DependencyGraph} {direction : Direction}
    (h : Grows graph direction all path shown branches o) (hn : n ∈ o.occurrences levels) :
    n.below = .nil ∨ n.below.branches = graph.branches direction n.id := by
  induction h generalizing levels with
  | nil => simp [Outline.occurrences] at hn
  | header _ ih => exact ih hn
  | listed _ _ ih =>
    rcases List.mem_cons.mp hn with rfl | hn
    · exact .inl rfl
    · exact ih hn
  | expanded _ _ hbelow _ ihb ihr =>
    rcases List.mem_append.mp hn with hn | hn
    · rcases List.mem_cons.mp hn with rfl | hn
      · exact .inr hbelow.branches_eq
      · exact ihb hn
    · exact ihr hn

theorem Occurrence.allDrawn {id : PackageId} {below : Outline} (h : below.Headed)
    (hf : below.Flagged) :
    AllDrawn options (Occurrence.lines options verdictOf ⟨[], id, below⟩) := by
  have hnone : ∀ lines, Foretold [] lines := fun lines c hc => absurd hc (Nat.not_lt_zero c)
  have hdepth : depthOf [] ≤ ([] : List Bool).length := Nat.le_refl 0
  have hbelow : AllDrawn options (below.lines options verdictOf [] ++ []) :=
    Outline.allDrawn h hf hdepth (hnone []) trivial
  have hfirst := Outline.depthOf_lines_le options verdictOf h hdepth
  rw [List.append_nil] at hbelow hfirst
  exact ⟨⟨[], .package rfl rfl hfirst (hnone _)⟩, hbelow⟩

namespace DependencyGraph

/-- Every walk draws its vines well, whichever way it goes and whether it repeats what was shown or
not. Directly below a package line stands nothing, or kind by kind one line for each neighbour with
a header above each group but the first, so that a group goes on where no header comes. -/
theorem walk_drawn (graph : DependencyGraph) (options : TreeOptions)
    (verdictOf : PackageId → Verdict) (root : PackageId) :
    let lines := graph.walk { options with linePrefix := .indent } verdictOf root
    TreeLines.Drawn options.charset.glyphs lines ∧
    ∀ before shown after, lines = before ++ .package shown :: after →
      TreeLines.below shown.depth after = [] ∨
      TreeLines.entries shown.depth (TreeLines.below shown.depth after) =
        graph.entriesBelow options.direction shown.packageId := by
  intro lines
  obtain ⟨below, hgrows, hwalk⟩ :=
    walk_eq_lines graph { options with linePrefix := .indent } verdictOf root
  have hheaded : (Occurrence.mk [] root below).below.Headed :=
    hgrows.headed (graph.headed_branches options.direction root)
  refine ⟨?_, fun before shown after hl => ?_⟩
  · have hflagged := hgrows.flagged (graph.flagged_branches options.direction root)
    have hdrawn : AllDrawn { options with linePrefix := .indent } lines := by
      rw [show lines = _ from hwalk]
      exact Occurrence.allDrawn hheaded hflagged
    have hfirst : depthOf lines = 0 := by
      rw [show lines = _ from hwalk]
      rfl
    exact hdrawn.drawn rfl hfirst
  · obtain ⟨first, found, rest, hocc, rfl, -, hbelow, hentries⟩ :=
      Occurrence.exists_of_lines _ _ hheaded (hwalk.symm.trans hl)
    have hmem : found ∈ Occurrence.occurrences ⟨[], root, below⟩ := by simp [hocc]
    have hfound : found.below = .nil ∨
        found.below.branches = graph.branches options.direction found.id := by
      rcases List.mem_cons.mp hmem with rfl | hmem
      · exact .inr hgrows.branches_eq
      · exact hgrows.below_of_mem hmem
    rcases hfound with hnil | hall
    · exact .inl (by rw [hbelow, hnil]; rfl)
    · rw [hall, graph.map_entry_branches] at hentries
      exact .inr hentries

end DependencyGraph

end UnsafeAudit
