import UnsafeAudit.Proofs.Tree.Branches

/-!
# Outlines

The shape of a tree without its drawing: what stands below a package, with what
stands below that in turn. An outline is drawn as lines, and from the lines the
blocks of the outline can be read back (`Occurrence.exists_of_lines`).
-/

namespace UnsafeAudit

/-- What stands below a package, in order: headers of groups, and packages, each with whether more
of its group follow and with what stands below it. -/
inductive Outline
  | nil
  | header (kind : DependencyKind) (rest : Outline)
  | child (id : PackageId) (continues : Bool) (below rest : Outline)

/-- One occurrence of a package in a tree. -/
structure Occurrence where
  levels : List Bool
  id : PackageId
  below : Outline

namespace Outline

def branches : Outline → List Branch
  | nil => []
  | header kind rest => .header kind :: rest.branches
  | child id continues _ rest => .child id continues :: rest.branches

def ids : Outline → List PackageId
  | nil => []
  | header _ rest => rest.ids
  | child id _ below rest => id :: below.ids ++ rest.ids

/-- The occurrences in an outline that stands at some levels, in the order of their lines. -/
def occurrences (levels : List Bool) : Outline → List Occurrence
  | nil => []
  | header _ rest => rest.occurrences levels
  | child id continues below rest =>
    ⟨levels ++ [continues], id, below⟩ :: below.occurrences (levels ++ [continues])
      ++ rest.occurrences levels

def Headed : Outline → Prop
  | nil => True
  | header _ rest => (∃ id continues below more, rest = child id continues below more) ∧ rest.Headed
  | child _ _ below rest => below.Headed ∧ rest.Headed

theorem Headed.of_mem (h : Headed o) (hn : n ∈ o.occurrences levels) : n.below.Headed := by
  induction o generalizing levels with
  | nil => simp [occurrences] at hn
  | header kind rest ih => exact ih h.2 hn
  | child id continues below rest ihb ihr =>
    rcases List.mem_append.mp hn with hn | hn
    · rcases List.mem_cons.mp hn with rfl | hn
      · exact h.1
      · exact ihb h.1 hn
    · exact ihr h.2 hn

theorem map_id_occurrences (o : Outline) (levels : List Bool) :
    (o.occurrences levels).map (·.id) = o.ids := by
  induction o generalizing levels with
  | nil => rfl
  | header kind rest ih => exact ih levels
  | child id continues below rest ihb ihr => simp [occurrences, ids, ihb, ihr]

end Outline

def PackageLine.at (options : TreeOptions) (verdictOf : PackageId → Verdict) (levels : List Bool)
    (id : PackageId) : PackageLine :=
  ⟨id, Vines.package options levels, levels.length, verdictOf id, .ofVerdict (verdictOf id)⟩

section

variable (options : TreeOptions) (verdictOf : PackageId → Verdict)

@[simp] theorem PackageLine.packageId_at {id : PackageId} :
    (PackageLine.at options verdictOf levels id).packageId = id := rfl

@[simp] theorem PackageLine.depth_at {id : PackageId} :
    (PackageLine.at options verdictOf levels id).depth = levels.length := rfl

def Outline.lines (levels : List Bool) : Outline → List TreeLine
  | nil => []
  | header kind rest => .group ⟨kind, Vines.group options levels⟩ :: rest.lines levels
  | child id continues below rest =>
    .package (.at options verdictOf (levels ++ [continues]) id)
      :: below.lines (levels ++ [continues]) ++ rest.lines levels

namespace Occurrence

def line (here : Occurrence) : PackageLine := .at options verdictOf here.levels here.id

def lines (here : Occurrence) : List TreeLine :=
  .package (here.line options verdictOf) :: here.below.lines options verdictOf here.levels

end Occurrence

def Occurrence.occurrences (here : Occurrence) : List Occurrence :=
  here :: here.below.occurrences here.levels

section

variable {options options' : TreeOptions} (hbare : options.linePrefix = options'.linePrefix)
  (hcharset : options.charset = options'.charset)
include hbare hcharset

/-- An outline is drawn alike whichever way the walk went. -/
theorem Outline.lines_congr (levels : List Bool) (o : Outline) :
    o.lines options verdictOf levels = o.lines options' verdictOf levels := by
  induction o generalizing levels with
  | nil => rfl
  | header kind rest ih => simp only [lines, Vines.group, hbare, hcharset, ih]
  | child id continues below rest ihb ihr =>
    simp only [lines, PackageLine.at, Vines.package, hbare, hcharset, ihb, ihr]

theorem Occurrence.lines_congr (here : Occurrence) :
    here.lines options verdictOf = here.lines options' verdictOf := by
  simp only [lines, line, PackageLine.at, Vines.package, hbare, hcharset,
    here.below.lines_congr verdictOf hbare hcharset here.levels]

end

-- ---------------------------------------------------------------------------
-- Reading an outline back from its lines
-- ---------------------------------------------------------------------------

namespace Outline

theorem packages_lines (o : Outline) (levels : List Bool) :
    TreeLines.packages (o.lines options verdictOf levels) =
      (o.occurrences levels).map (·.line options verdictOf) := by
  induction o generalizing levels with
  | nil => rfl
  | header kind rest ih => simpa [lines, occurrences] using ih levels
  | child id continues below rest ihb ihr =>
    simp [lines, occurrences, ihb, ihr, Occurrence.line]

theorem depthOf_child_lines (id : PackageId) (continues : Bool) (below rest : Outline)
    (levels : List Bool) (tail : List TreeLine) :
    TreeLines.depthOf ((child id continues below rest).lines options verdictOf levels ++ tail) =
      levels.length + 1 := by
  simp [lines, TreeLines.depthOf, PackageLine.at]

theorem depthOf_header_lines (h : (header kind rest).Headed) (levels : List Bool)
    (tail : List TreeLine) :
    TreeLines.depthOf ((header kind rest).lines options verdictOf levels ++ tail) =
      levels.length + 1 := by
  obtain ⟨⟨id, continues, below, more, rfl⟩, -⟩ := h
  exact depthOf_child_lines options verdictOf id continues below more levels tail

theorem depthOf_lines_le (h : Headed o) (ht : TreeLines.depthOf tail ≤ levels.length) :
    TreeLines.depthOf (o.lines options verdictOf levels ++ tail) ≤ levels.length + 1 := by
  cases o with
  | nil => exact Nat.le_succ_of_le ht
  | header kind rest => exact Nat.le_of_eq (depthOf_header_lines options verdictOf h levels tail)
  | child id continues below rest => exact Nat.le_of_eq (depthOf_child_lines ..)

/-- An outline stands wholly below every package at a smaller depth. -/
theorem below_lines (h : Headed o) (hd : depth ≤ levels.length) (tail : List TreeLine) :
    TreeLines.below depth (o.lines options verdictOf levels ++ tail) =
      o.lines options verdictOf levels ++ TreeLines.below depth tail := by
  induction o generalizing levels tail with
  | nil => rfl
  | header kind rest ih =>
    have hdeep := depthOf_header_lines options verdictOf h levels tail
    simp only [lines, List.cons_append] at hdeep ⊢
    rw [TreeLines.below, if_pos (by omega), ih h.2 hd]
  | child id continues below rest ihb ihr =>
    have hdeep := depthOf_child_lines options verdictOf id continues below rest levels tail
    simp only [lines, List.cons_append, List.append_assoc] at hdeep ⊢
    rw [TreeLines.below, if_pos (by omega), ihb h.1 (by simp; omega), ihr h.2 hd]

theorem behind_lines (h : Headed o) (hd : depth ≤ levels.length) (tail : List TreeLine) :
    TreeLines.behind depth (o.lines options verdictOf levels ++ tail) =
      TreeLines.behind depth tail :=
  TreeLines.behind_append (below_lines options verdictOf h hd tail)

theorem entries_lines_of_lt (h : Headed o) (hd : depth < levels.length) (tail : List TreeLine) :
    TreeLines.entries depth (o.lines options verdictOf levels ++ tail) =
      TreeLines.entries depth tail := by
  induction o generalizing levels tail with
  | nil => rfl
  | header kind rest ih =>
    have hdeep := depthOf_header_lines options verdictOf h levels tail
    simp only [lines, List.cons_append, TreeLines.depthOf] at hdeep ⊢
    rw [TreeLines.entries, if_neg (by omega), ih h.2 hd]
  | child id continues below rest ihb ihr =>
    simp only [lines, List.cons_append, List.append_assoc]
    rw [TreeLines.entries, if_neg (by simp [PackageLine.at]; omega), ihb h.1 (by simp; omega),
      ihr h.2 hd]

theorem entries_lines (h : Headed o) (levels : List Bool) (tail : List TreeLine) :
    TreeLines.entries levels.length (o.lines options verdictOf levels ++ tail) =
      o.branches.map Branch.entry ++ TreeLines.entries levels.length tail := by
  induction o generalizing tail with
  | nil => rfl
  | header kind rest ih =>
    have hdeep := depthOf_header_lines options verdictOf h levels tail
    simp only [lines, List.cons_append, TreeLines.depthOf] at hdeep ⊢
    rw [TreeLines.entries, if_pos (by omega), ih h.2, branches, List.map_cons, List.cons_append]
    rfl
  | child id continues below rest ihb ihr =>
    simp only [lines, List.cons_append, List.append_assoc]
    rw [TreeLines.entries, if_pos (by simp [PackageLine.at]),
      entries_lines_of_lt options verdictOf h.1 (by simp), ihr h.2, branches, List.map_cons,
      List.cons_append]
    rfl

theorem blocks_lines (h : Headed o) (ht : TreeLines.depthOf tail ≤ levels.length) :
    TreeLines.blocks (o.lines options verdictOf levels ++ tail) =
      (o.occurrences levels).map (fun n =>
        (n.line options verdictOf, n.below.lines options verdictOf n.levels))
        ++ TreeLines.blocks tail := by
  induction o generalizing levels tail with
  | nil => rfl
  | header kind rest ih => simpa [lines, occurrences, TreeLines.blocks] using ih h.2 ht
  | child id continues below rest ihb ihr =>
    have hrest := depthOf_lines_le options verdictOf h.2 ht
    have hdepth : (PackageLine.at options verdictOf (levels ++ [continues]) id).depth =
        (levels ++ [continues]).length := rfl
    simp only [lines, occurrences, List.cons_append, List.append_assoc, TreeLines.blocks,
      List.map_cons, List.map_append]
    rw [hdepth, below_lines options verdictOf h.1 (Nat.le_refl _),
      TreeLines.below_eq_nil (by simpa using hrest), ihb h.1 (by simpa using hrest), ihr h.2 ht,
      List.append_nil]
    rfl

end Outline

theorem Occurrence.ids_lines (here : Occurrence) :
    TreeLines.ids (here.lines options verdictOf) = here.id :: here.below.ids := by
  rw [TreeLines.ids, lines, TreeLines.packages_package, here.below.packages_lines,
    ← here.below.map_id_occurrences here.levels]
  simp [Function.comp_def, line, PackageLine.at]

/-- Where the lines show a package there is an occurrence of it, behind as many others, and what
stands below the line is what stands below the occurrence. -/
theorem Occurrence.exists_of_lines {here : Occurrence} {shown : PackageLine}
    (h : here.below.Headed)
    (hl : here.lines options verdictOf = before ++ .package shown :: after) :
    ∃ first found rest, here.occurrences = first ++ found :: rest ∧
      shown = found.line options verdictOf ∧ TreeLines.ids before = first.map (·.id) ∧
      TreeLines.below shown.depth after = found.below.lines options verdictOf found.levels ∧
      TreeLines.entries shown.depth (TreeLines.below shown.depth after) =
        found.below.branches.map Branch.entry := by
  have hdepth : (here.line options verdictOf).depth = here.levels.length := rfl
  have hblocks : TreeLines.blocks (here.lines options verdictOf) =
      here.occurrences.map fun n =>
        (n.line options verdictOf, n.below.lines options verdictOf n.levels) := by
    have hbelow := Outline.below_lines options verdictOf h (Nat.le_refl here.levels.length) []
    have hrest := Outline.blocks_lines options verdictOf h
      (show TreeLines.depthOf [] ≤ here.levels.length from Nat.zero_le _)
    simp only [List.append_nil, TreeLines.below, TreeLines.blocks] at hbelow hrest
    rw [lines, occurrences, TreeLines.blocks, hdepth, hbelow, hrest, List.map_cons]
  obtain ⟨first, hsplit, hfirst⟩ := TreeLines.blocks_split before after shown
  rw [← hl, hblocks] at hsplit
  obtain ⟨ns, ms, hn, rfl, hms⟩ := List.map_eq_append_iff.mp hsplit
  obtain ⟨found, rest, rfl, hfound, -⟩ := List.map_eq_cons_iff.mp hms
  obtain ⟨rfl, hbelow⟩ := Prod.mk.inj hfound
  refine ⟨ns, found, rest, hn, rfl, ?_, hbelow.symm, ?_⟩
  · rw [TreeLines.ids, ← hfirst]
    simp [Function.comp_def, line, PackageLine.at]
  · have hmem : found ∈ here.occurrences := by simp [hn]
    have hheaded : found.below.Headed := by
      rcases List.mem_cons.mp hmem with rfl | hmem
      · exact h
      · exact h.of_mem hmem
    have hentries := Outline.entries_lines options verdictOf hheaded found.levels []
    simp only [List.append_nil, TreeLines.entries] at hentries
    rw [← hbelow]
    exact hentries

end

end UnsafeAudit
