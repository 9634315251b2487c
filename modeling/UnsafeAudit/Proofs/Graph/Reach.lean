import Mathlib.Logic.Relation
import UnsafeAudit.Graph.Basic
import UnsafeAudit.Proofs.Search.FirstOccurrences

/-!
# Reach in a dependency graph

What a dependency leads to, said on the edges alone, and what `neighbors` has
to do with it. The last kind of dependency is never followed.
-/

namespace UnsafeAudit.DependencyGraph

variable {graph : DependencyGraph} {direction : Direction} {p q : PackageId} {kind : DependencyKind}

/-- A dependency of a kind leads from one package to another. -/
def Leads (graph : DependencyGraph) (direction : Direction) (p : PackageId) (kind : DependencyKind)
    (q : PackageId) : Prop :=
  ∃ edge ∈ graph.edges, edge.kind = kind ∧ edge.start direction = p ∧ edge.stop direction = q

/-- A chain of dependencies, none of them of the last kind, leads from one package to another. -/
def Reaches (graph : DependencyGraph) (direction : Direction) : PackageId → PackageId → Prop :=
  Relation.ReflTransGen fun p q => ∃ kind, kind ≠ .other ∧ graph.Leads direction p kind q

theorem mem_edgesFrom {edge : Edge} :
    edge ∈ graph.edgesFrom p direction ↔ edge ∈ graph.edges ∧ edge.start direction = p := by
  simp [edgesFrom]

theorem mem_neighbors : q ∈ graph.neighbors p direction kind ↔ graph.Leads direction p kind q := by
  simp only [neighbors, edgesFrom, Leads, List.mem_eraseDups, List.mem_map, List.mem_filter,
    decide_eq_true_eq]
  constructor
  · rintro ⟨edge, ⟨⟨he, hs⟩, hk⟩, ht⟩
    exact ⟨edge, he, hk, hs, ht⟩
  · rintro ⟨edge, he, hk, hs, ht⟩
    exact ⟨edge, ⟨⟨he, hs⟩, hk⟩, ht⟩

theorem nodup_neighbors : (graph.neighbors p direction kind).Nodup := nodup_eraseDups _

theorem Reaches.step (hp : graph.Reaches direction root p) (hk : kind ≠ .other)
    (hq : q ∈ graph.neighbors p direction kind) : graph.Reaches direction root q :=
  Relation.ReflTransGen.tail hp ⟨kind, hk, mem_neighbors.mp hq⟩

-- ---------------------------------------------------------------------------
-- A graph with cycles
-- ---------------------------------------------------------------------------

namespace Entwined

def first : PackageId := ⟨"a", "1", none, "a"⟩
def second : PackageId := ⟨"b", "1", none, "b"⟩
def package (id : PackageId) : Package :=
  ⟨id, ⟨.relative, [id.name, "Cargo.toml"]⟩, none, none, [], []⟩

end Entwined

open Entwined in
/-- Two packages that depend on each other, the first one also on itself. -/
def entwined : DependencyGraph where
  packages := [package first, package second]
  edges := [⟨first, second, .normal⟩, ⟨first, first, .build⟩, ⟨second, first, .development⟩]

end UnsafeAudit.DependencyGraph
