import Mathlib.Tactic.SplitIfs
import UnsafeAudit.Graph.Basic
import UnsafeAudit.Proofs.Table.Keys

/-!
# Sound graphs

What adding a package or an edge does to a graph, and what it keeps: no package is there twice, and
both ends of every edge are there (`Sound`).
-/

namespace UnsafeAudit.DependencyGraph

variable {graph : DependencyGraph} {edge : Edge} {p : PackageId}

theorem contains_iff : graph.contains p ↔ p ∈ graph.packages.map (·.id) := by
  simp [contains]

def Spans (graph : DependencyGraph) (edge : Edge) : Prop :=
  graph.contains edge.source ∧ graph.contains edge.target

instance : DecidablePred graph.Spans := fun _ => inferInstanceAs (Decidable (_ ∧ _))

/-- No package is there twice, and both ends of every edge are there. -/
structure Sound (graph : DependencyGraph) : Prop where
  nodup_ids : (graph.packages.map (·.id)).Nodup
  spans : ∀ edge ∈ graph.edges, graph.Spans edge

-- ---------------------------------------------------------------------------
-- Adding a package
-- ---------------------------------------------------------------------------

theorem foldl_addPackage (packages : List Package) :
    packages.foldl addPackage empty = ⟨Table.ofList (fun p q => p.id = q.id) packages, []⟩ := by
  induction packages using List.reverseRecOn with
  | nil => rfl
  | append_singleton rest package ih => rw [List.foldl_concat, ih, Table.ofList_concat]; rfl

theorem ids_addPackage (graph : DependencyGraph) (package : Package) :
    (graph.addPackage package).packages.map (·.id) =
      if package.id ∈ graph.packages.map (·.id) then graph.packages.map (·.id)
      else graph.packages.map (·.id) ++ [package.id] :=
  Table.map_key_put fun _ _ => rfl

theorem package?_addPackage (graph : DependencyGraph) (package : Package) (id : PackageId) :
    (graph.addPackage package).package? id =
      if package.id = id then some package else graph.package? id :=
  @Table.find?_put Package PackageId _ Package.id _ package graph.packages (fun _ _ => rfl) id

theorem nodup_ids_addPackage (h : (graph.packages.map (·.id)).Nodup) (package : Package) :
    ((graph.addPackage package).packages.map (·.id)).Nodup := by
  rw [ids_addPackage]
  split
  · exact h
  · rename_i hnew
    rw [List.nodup_append']
    exact ⟨h, List.nodup_singleton _, List.disjoint_singleton.mpr hnew⟩

theorem contains_addPackage (h : graph.contains p) (package : Package) :
    (graph.addPackage package).contains p := by
  rw [contains_iff] at h ⊢
  rw [ids_addPackage]
  split
  · exact h
  · exact List.mem_append_left _ h

theorem Sound.addPackage (h : graph.Sound) (package : Package) :
    (graph.addPackage package).Sound where
  nodup_ids := nodup_ids_addPackage h.nodup_ids package
  spans edge he := (h.spans edge he).imp (contains_addPackage · package) (contains_addPackage · package)

-- ---------------------------------------------------------------------------
-- Adding an edge
-- ---------------------------------------------------------------------------

theorem addEdge_of_spans (h : graph.Spans edge) :
    graph.addEdge edge =
      .ok (if edge ∈ graph.edges then graph else ⟨graph.packages, graph.edges ++ [edge]⟩) := by
  rw [addEdge, h.1, h.2]
  simp only [Bool.not_true, Bool.false_eq_true, if_false]
  split <;> rfl

/-- An edge that a graph refuses has an end that is no package of it. The one that is told about is
the source, if it is unknown. -/
theorem addEdge_of_not_spans (h : ¬ graph.Spans edge) :
    graph.addEdge edge =
      .error (.unknownPackage (if graph.contains edge.source then edge.target else edge.source)) := by
  rw [addEdge]
  by_cases hsource : graph.contains edge.source
  · have htarget : ¬ graph.contains edge.target := fun htarget => h ⟨hsource, htarget⟩
    simp [hsource, htarget]
  · simp [hsource]

theorem addEdge_getD (graph : DependencyGraph) (edge : Edge) :
    (graph.addEdge edge).toOption.getD graph =
      if graph.Spans edge ∧ edge ∉ graph.edges then ⟨graph.packages, graph.edges ++ [edge]⟩
      else graph := by
  by_cases hspans : graph.Spans edge
  · rw [addEdge_of_spans hspans]
    by_cases he : edge ∈ graph.edges <;> simp [he, hspans, Except.toOption]
  · simp [addEdge_of_not_spans hspans, hspans, Except.toOption]

theorem packages_addEdge_getD (graph : DependencyGraph) (edge : Edge) :
    ((graph.addEdge edge).toOption.getD graph).packages = graph.packages := by
  rw [addEdge_getD]
  split <;> rfl

theorem Sound.addEdge_getD (h : graph.Sound) (edge : Edge) :
    ((graph.addEdge edge).toOption.getD graph).Sound := by
  rw [DependencyGraph.addEdge_getD]
  split_ifs with hnew
  · refine ⟨h.nodup_ids, fun other ho => ?_⟩
    rcases List.mem_append.mp ho with ho | ho
    · exact h.spans other ho
    · rw [List.mem_singleton.mp ho]
      exact hnew.1
  · exact h

end UnsafeAudit.DependencyGraph
