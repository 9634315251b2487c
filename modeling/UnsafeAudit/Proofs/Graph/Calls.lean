import Mathlib.Data.List.Basic
import Mathlib.Data.List.Induction
import UnsafeAudit.Graph.Basic

/-!
# Graphs built by calls

A graph is built from the empty one by calls that add packages and edges. A call that fails changes
nothing. With all edges turned round, the same calls fail and build the reversed graph
(`build_map_reversed`).
-/

namespace UnsafeAudit

inductive GraphCall
  | addPackage (package : Package)
  | addEdge (edge : Edge)
  deriving DecidableEq, Repr

namespace GraphCall

def perform (graph : DependencyGraph) : GraphCall → Except GraphError DependencyGraph
  | .addPackage package => .ok (graph.addPackage package)
  | .addEdge edge => graph.addEdge edge

def Fails (graph : DependencyGraph) (call : GraphCall) : Prop :=
  ∃ error, call.perform graph = .error error

end GraphCall

/-- The graph that some calls build, one after the other, those that fail included. -/
def DependencyGraph.build (calls : List GraphCall) : DependencyGraph :=
  calls.foldl (fun graph call => (call.perform graph).toOption.getD graph) .empty

-- ---------------------------------------------------------------------------
-- Turning edges round
-- ---------------------------------------------------------------------------

def Edge.reversed (edge : Edge) : Edge := ⟨edge.target, edge.source, edge.kind⟩

def GraphCall.reversed : GraphCall → GraphCall
  | .addPackage package => .addPackage package
  | .addEdge edge => .addEdge edge.reversed

def DependencyGraph.reversed (graph : DependencyGraph) : DependencyGraph :=
  ⟨graph.packages, graph.edges.map Edge.reversed⟩

namespace Edge

@[simp] theorem reversed_reversed (edge : Edge) : edge.reversed.reversed = edge := rfl

@[simp] theorem start_reversed (edge : Edge) (direction : Direction) :
    edge.reversed.start direction.flip = edge.start direction := by
  cases direction <;> rfl

@[simp] theorem stop_reversed (edge : Edge) (direction : Direction) :
    edge.reversed.stop direction.flip = edge.stop direction := by
  cases direction <;> rfl

theorem reversed_mem_map {edge : Edge} {edges : List Edge} :
    edge.reversed ∈ edges.map reversed ↔ edge ∈ edges :=
  List.mem_map_of_injective (Function.LeftInverse.injective reversed_reversed)

end Edge

namespace DependencyGraph

variable (graph : DependencyGraph) (id : PackageId) (direction : Direction)

theorem edgesFrom_reversed : graph.reversed.edgesFrom id direction.flip =
    (graph.edgesFrom id direction).map Edge.reversed := by
  simp [edgesFrom, reversed, List.filter_map, Function.comp_def]

theorem neighbors_reversed (kind : DependencyKind) :
    graph.reversed.neighbors id direction.flip kind = graph.neighbors id direction kind := by
  rw [neighbors, neighbors, edgesFrom_reversed, List.filter_map, List.map_map]
  exact congrArg List.eraseDups (List.map_congr_left fun edge _ => edge.stop_reversed direction)

end DependencyGraph

/-- A call fails in neither graph, or in both; if it does not, it builds the reversed graph. -/
theorem GraphCall.perform_reversed (graph : DependencyGraph) (call : GraphCall) :
    (call.reversed.perform graph.reversed).toOption =
      (call.perform graph).toOption.map DependencyGraph.reversed := by
  cases call with
  | addPackage package => rfl
  | addEdge edge =>
    have hcontains : ∀ id, graph.reversed.contains id = graph.contains id := fun _ => rfl
    have hmem : edge.reversed ∈ graph.reversed.edges ↔ edge ∈ graph.edges := Edge.reversed_mem_map
    show (graph.reversed.addEdge edge.reversed).toOption = (graph.addEdge edge).toOption.map _
    simp only [DependencyGraph.addEdge, hcontains, hmem]
    by_cases hs : graph.contains edge.source <;> by_cases ht : graph.contains edge.target <;>
      by_cases he : edge ∈ graph.edges <;>
      simp [Edge.reversed, DependencyGraph.reversed, Except.toOption, hs, ht, he]

theorem GraphCall.fails_iff {graph : DependencyGraph} {call : GraphCall} :
    call.Fails graph ↔ (call.perform graph).toOption = none := by
  rw [Fails]
  cases call.perform graph <;> simp [Except.toOption]

namespace DependencyGraph

theorem build_concat (calls : List GraphCall) (call : GraphCall) :
    build (calls ++ [call]) = (call.perform (build calls)).toOption.getD (build calls) :=
  List.foldl_concat _ _ _ _

theorem build_map_reversed (calls : List GraphCall) :
    build (calls.map GraphCall.reversed) = (build calls).reversed := by
  induction calls using List.reverseRecOn with
  | nil => rfl
  | append_singleton calls call ih =>
    rw [List.map_append, List.map_singleton, build_concat, build_concat, ih,
      GraphCall.perform_reversed]
    cases (call.perform (build calls)).toOption <;> rfl

end DependencyGraph

theorem GraphCall.fails_reversed_iff (graph : DependencyGraph) (call : GraphCall) :
    call.reversed.Fails graph.reversed ↔ call.Fails graph := by
  rw [fails_iff, fails_iff, perform_reversed, Option.map_eq_none_iff]

end UnsafeAudit
