import UnsafeAudit.Metadata.Load
import UnsafeAudit.Proofs.Graph.Sound

/-!
# Assembled graphs

A graph that is assembled from different packages and some edges has these
packages in their order and, each once and in the order in which they first
came, those of the edges that have both ends among the packages.
-/

namespace UnsafeAudit

namespace Metadata

variable {packages : List Package} {edges : List Edge}

theorem graphOf_eq (h : (packages.map (·.id)).Nodup) (edges : List Edge) :
    graphOf packages edges =
      ⟨packages, (edges.filter (DependencyGraph.Spans ⟨packages, []⟩ ·)).eraseDups⟩ := by
  have htable : packages.foldl DependencyGraph.addPackage .empty = ⟨packages, []⟩ := by
    rw [DependencyGraph.foldl_addPackage, Table.ofList_of_nodup (fun _ _ _ _ => rfl) h]
  rw [graphOf, htable]
  induction edges using List.reverseRecOn with
  | nil => rfl
  | append_singleton rest edge ih =>
    rw [List.foldl_concat, ih, DependencyGraph.addEdge_getD, List.filter_append]
    -- which edges span the packages does not depend on the edges of the graph
    have hspans : ∀ edges, DependencyGraph.Spans ⟨packages, edges⟩ edge ↔
        DependencyGraph.Spans ⟨packages, []⟩ edge := fun _ => Iff.rfl
    by_cases hs : DependencyGraph.Spans ⟨packages, []⟩ edge
    · rw [List.filter_singleton, decide_eq_true hs, cond_true, eraseDups_concat]
      simp only [hspans, hs, true_and, List.mem_eraseDups]
      split <;> simp_all
    · simp [hspans, hs]

end Metadata

end UnsafeAudit
