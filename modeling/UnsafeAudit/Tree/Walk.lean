import UnsafeAudit.Graph.Basic
import UnsafeAudit.Tree.Vines

/-!
# The tree walk

A depth-first walk turns the graph into tree lines. Under a package come its
neighbours, kind by kind, each labelled group below a line of its own. A
package is expanded unless it is on the path from the root, or, unless all
dependencies are asked for, was shown before.

The path holds distinct packages, and a package that is expanded has an edge,
so the walk ends on every graph.
-/

namespace UnsafeAudit

/-- What stands directly below an expanded package: a group line, or a neighbour and whether
more of its group follow. -/
inductive Branch
  | header (kind : DependencyKind)
  | child (id : PackageId) (continues : Bool)
  deriving DecidableEq, Repr

namespace Branch

def children : List PackageId → List Branch
  | [] => []
  | id :: rest => .child id (!rest.isEmpty) :: children rest

/-- The group of one kind. Without neighbours, or without a label where one is needed, nothing
is shown. -/
def group (kind : DependencyKind) (ids : List PackageId) : List Branch :=
  if ids.isEmpty then []
  else if kind = .normal then children ids
  else if kind.group?.isNone then []
  else .header kind :: children ids

end Branch

namespace DependencyGraph

def branches (graph : DependencyGraph) (direction : Direction) (id : PackageId) : List Branch :=
  DependencyKind.all.flatMap fun kind => Branch.group kind (graph.neighbors id direction kind)

def starts (graph : DependencyGraph) (direction : Direction) : List PackageId :=
  graph.edges.map (·.start direction)

def fresh (graph : DependencyGraph) (direction : Direction) (path : List PackageId) :
    List PackageId :=
  (graph.starts direction).filter (· ∉ path)

theorem mem_starts_of_branches {graph : DependencyGraph} {direction : Direction} {id : PackageId}
    (h : graph.branches direction id ≠ []) : id ∈ graph.starts direction := by
  have hex : ∃ kind ∈ DependencyKind.all, Branch.group kind (graph.neighbors id direction kind) ≠ [] := by
    by_cases hall : ∀ kind ∈ DependencyKind.all,
        Branch.group kind (graph.neighbors id direction kind) = []
    · exact absurd (List.flatMap_eq_nil_iff.mpr hall) h
    · simpa using hall
  obtain ⟨kind, _, hk⟩ := hex
  have hn : graph.neighbors id direction kind ≠ [] := by
    intro hnil
    rw [hnil] at hk
    simp [Branch.group] at hk
  have he : graph.edgesFrom id direction ≠ [] := by
    intro hnil
    apply hn
    simp [neighbors, hnil]
  obtain ⟨edge, hedge⟩ := List.exists_mem_of_ne_nil _ he
  simp only [edgesFrom, List.mem_filter, decide_eq_true_eq] at hedge
  exact List.mem_map.mpr ⟨edge, hedge.1, hedge.2⟩

theorem fresh_lt {graph : DependencyGraph} {direction : Direction} {id : PackageId}
    {path : List PackageId} (hs : id ∈ graph.starts direction) (hp : id ∉ path) :
    (graph.fresh direction (id :: path)).length < (graph.fresh direction path).length := by
  have hsub : graph.fresh direction (id :: path) =
      (graph.fresh direction path).filter (· ≠ id) := by
    unfold fresh
    rw [List.filter_filter]
    congr 1
    funext p
    simp [List.mem_cons, not_or]
  rw [hsub]
  apply Nat.lt_of_le_of_ne (List.length_filter_le _ _)
  intro heq
  have hmem : id ∈ graph.fresh direction path := by simp [fresh, hs, hp]
  have := List.length_filter_eq_length_iff.mp heq id hmem
  simp at this

mutual
/-- The lines for one occurrence of a package and everything below it, and the packages that
have been shown by then. -/
def walkPackage (graph : DependencyGraph) (options : TreeOptions) (verdictOf : PackageId → Verdict)
    (path : List PackageId) (levels : List Bool) (shown : List PackageId) (id : PackageId) :
    List TreeLine × List PackageId :=
  let verdict := verdictOf id
  let line : TreeLine := .package
    ⟨id, Vines.package options levels, levels.length, verdict, .ofVerdict verdict⟩
  if _hp : id ∈ path then ([line], id :: shown)
  else if !options.all && id ∈ shown then ([line], id :: shown)
  else
    match _hb : graph.branches options.direction id with
    | [] => ([line], id :: shown)
    | first :: more =>
      let (lines, shown) :=
        walkBranches graph options verdictOf (id :: path) levels (id :: shown) (first :: more)
      (line :: lines, shown)
termination_by ((graph.fresh options.direction path).length, 0)
decreasing_by
  exact Prod.Lex.left _ _ (fresh_lt (mem_starts_of_branches (by rw [_hb]; simp)) _hp)
def walkBranches (graph : DependencyGraph) (options : TreeOptions)
    (verdictOf : PackageId → Verdict) (path : List PackageId) (levels : List Bool)
    (shown : List PackageId) : List Branch → List TreeLine × List PackageId
  | [] => ([], shown)
  | .header kind :: rest =>
    let (lines, shown) := walkBranches graph options verdictOf path levels shown rest
    (.group ⟨kind, Vines.group options levels⟩ :: lines, shown)
  | .child id continues :: rest =>
    let (first, shown) :=
      walkPackage graph options verdictOf path (levels ++ [continues]) shown id
    let (lines, shown) := walkBranches graph options verdictOf path levels shown rest
    (first ++ lines, shown)
termination_by branches => ((graph.fresh options.direction path).length, branches.length + 1)
decreasing_by
  · exact Prod.Lex.right _ (Nat.lt_succ_self _)
  · exact Prod.Lex.right _ (Nat.succ_pos _)
  · exact Prod.Lex.right _ (Nat.lt_succ_self _)
end

def walk (graph : DependencyGraph) (options : TreeOptions) (verdictOf : PackageId → Verdict)
    (root : PackageId) : List TreeLine :=
  (walkPackage graph options verdictOf [] [] [] root).1

end DependencyGraph

end UnsafeAudit
