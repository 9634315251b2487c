import UnsafeAudit.Proofs.Metadata.Dependents
import UnsafeAudit.Proofs.Metadata.Forward

/-!
# Graphs of what depends on a root

Where every id of the resolve is listed, the inverted graph of a root holds what
has a chain of dependencies to the root and the edges between these packages
(`buildGraph_inverted`). So a package is in the inverted graph of another one if
and only if the other one is in its graph.
-/

namespace UnsafeAudit

open Declared (metadata WellTyped groups identity? package? targets dependents nodeIds included)

variable {document : Json} {config : GraphConfig} {id target : String}

namespace Declared

/-- A graph holds what has a chain of dependencies to `root`, the root first and the others in
breadth-first order, and exactly the edges that the document declares between them. -/
structure InvertedGraph (document : Json) (config : GraphConfig) (root : String)
    (graph : DependencyGraph) : Prop where
  packages_eq : ∃ order, BreadthFirst (dependents document config) root order ∧
    graph.packages.map some = order.map (package? document)
  first : graph.packages.head?.map (·.id.reprId) = some root
  contains_iff : ∀ p, graph.contains p ↔ identity? document p.reprId = some p ∧
    Reachable (targets document config) p.reprId root
  nodup : graph.edges.Nodup
  mem_edges : ∀ edge, edge ∈ graph.edges ↔
    graph.Spans edge ∧ edge.pair ∈ included document config edge.source.reprId

/-- The direction in which a graph is built plays no part in which kinds are included. -/
theorem InvertedGraph.of_invert {graph : DependencyGraph}
    (h : InvertedGraph document { config with invert := true } root graph) :
    InvertedGraph document config root graph :=
  ⟨h.packages_eq, h.first, h.contains_iff, h.nodup, h.mem_edges⟩

theorem mem_nodeIds_of_mem_targets (h : target ∈ targets document config id) :
    id ∈ nodeIds document := by
  obtain ⟨_, hmem, -⟩ := List.mem_map.mp h
  obtain ⟨dependency, hd, -⟩ := List.mem_flatMap.mp hmem
  obtain ⟨node, hnode, rfl, -⟩ := mem_dependencies hd
  exact List.mem_eraseDups.mpr (List.mem_map_of_mem (f := (·.textAt "id")) hnode)

theorem mem_dependents_iff {a b : String} :
    b ∈ targets document config a ↔ a ∈ dependents document config b := by
  rw [dependents, List.mem_filter, decide_eq_true_iff]
  exact ⟨fun h => ⟨mem_nodeIds_of_mem_targets h, h⟩, fun h => h.2⟩

theorem mem_iff_reachable {root : String} {order : List String}
    (h : BreadthFirst (dependents document config) root order) :
    id ∈ order ↔ Reachable (targets document config) id root := by
  rw [h.mem_iff, reachable_swap fun _ _ => mem_dependents_iff]

theorem Closed.of_mem_nodeIds (h : Closed document) (hid : id ∈ nodeIds document) :
    identity? document id ≠ none := by
  obtain ⟨node, hnode, rfl⟩ := List.mem_map.mp (List.mem_eraseDups.mp hid)
  exact h.node node hnode

/-- Whatever has a chain of dependencies to `root` is listed, and so is all that it depends on. -/
structure ClosedAbove (document : Json) (config : GraphConfig) (root : String) : Prop where
  listed : ∀ id, Reachable (targets document config) id root → identity? document id ≠ none
  dependency : ∀ id, Reachable (targets document config) id root →
    ∀ target ∈ targets document config id, identity? document target ≠ none

theorem Closed.closedAbove (h : Closed document) (hroot : identity? document root ≠ none) :
    ClosedAbove document config root := by
  refine ⟨fun id hreach => ?_, fun id _ target htarget => h.of_mem_targets htarget⟩
  cases hreach using Relation.ReflTransGen.head_induction_on with
  | refl => exact hroot
  | head hstep _ _ => exact h.of_mem_nodeIds (mem_nodeIds_of_mem_targets hstep)

end Declared

namespace Metadata

theorem exists_packages (h : WellTyped document) (ids : List String)
    (hids : ∀ id ∈ ids, identity? document id ≠ none) :
    ∃ packages : List Package, (ids.map Json.str).mapM (fun key =>
        ((metadata document).package key).mapError Failure.fault) = .ok packages ∧
      packages.map some = ids.map (package? document) := by
  induction ids with
  | nil => exact ⟨[], rfl, rfl⟩
  | cons id rest ih =>
    obtain ⟨packages, hread, hpackages⟩ := ih fun i hi => hids i (List.mem_cons_of_mem _ hi)
    obtain ⟨p, hp⟩ := Option.ne_none_iff_exists'.mp (hids id List.mem_cons_self)
    obtain ⟨package, hpackage, -⟩ := Declared.exists_package? hp
    refine ⟨package :: packages, ?_, by rw [List.map_cons, hpackages, List.map_cons, hpackage]⟩
    rw [List.map_cons, List.mapM_cons, hread, package_ok h hpackage]
    rfl

def edgesFrom (metadata : Metadata) (config : GraphConfig) (package : Package) :
    Except Failure (List Edge) := do
  let dependencies ←
    (metadata.dependencies config (.str package.id.reprId)).mapError Failure.fault
  let targets ← dependencies.mapM fun d => do
    return (← metadata.packageId d.target, d.kinds)
  return edgesOf package.id targets

theorem edgesFrom_ok (h : WellTyped document) {package : Package}
    (hlisted : ∀ target ∈ targets document config package.id.reprId,
      identity? document target ≠ none) :
    ∃ resolved, (metadata document).edgesFrom config package =
      .ok (edgesOf package.id resolved) ∧ Resolved document config package.id resolved := by
  obtain ⟨resolved, hresolve, hresolved⟩ := exists_resolved document config package.id
    fun group hg => hlisted group.1 (Declared.mem_targets_iff.mpr ⟨group, hg, rfl⟩)
  refine ⟨resolved, ?_, hresolved⟩
  rw [edgesFrom, dependencies_eq h]
  show (List.mapM (m := Except Failure) _ (List.map _ _) >>= fun _ => _) = _
  rw [hresolve]
  rfl

theorem exists_edges (h : WellTyped document) (packages : List Package)
    (hlisted : ∀ package ∈ packages, ∀ target ∈ targets document config package.id.reprId,
      identity? document target ≠ none) :
    ∃ edges : List (List Edge), packages.mapM ((metadata document).edgesFrom config) = .ok edges ∧
      ∀ edge, edge ∈ edges.flatten ↔ edge.source ∈ packages.map (·.id) ∧
        identity? document edge.target.reprId = some edge.target ∧
        edge.pair ∈ included document config edge.source.reprId := by
  induction packages with
  | nil => exact ⟨[], rfl, by simp⟩
  | cons package rest ih =>
    obtain ⟨edges, hread, hedges⟩ := ih fun p hp => hlisted p (List.mem_cons_of_mem _ hp)
    obtain ⟨resolved, hown, hresolved⟩ := edgesFrom_ok h (hlisted package List.mem_cons_self)
    refine ⟨edgesOf package.id resolved :: edges, ?_, fun edge => ?_⟩
    · rw [List.mapM_cons, hread, hown]
      rfl
    · rw [List.flatten_cons, List.mem_append, hedges, hresolved.mem_edgesOf, List.map_cons,
        List.mem_cons]
      constructor
      · rintro (⟨hs, ht, hp⟩ | ⟨hs, ht, hp⟩)
        · exact ⟨.inl hs, ht, hs ▸ hp⟩
        · exact ⟨.inr hs, ht, hp⟩
      · rintro ⟨hs | hs, ht, hp⟩
        · exact .inl ⟨hs, ht, hs ▸ hp⟩
        · exact .inr ⟨hs, ht, hp⟩

theorem invertedGraph_eq (metadata : Metadata) (config : GraphConfig) (root : PackageId) :
    metadata.invertedGraph config root = (do
      let members ← (metadata.dependents config root).mapError Failure.fault
      let packages ← members.mapM fun key => (metadata.package key).mapError Failure.fault
      let edges ← packages.mapM (metadata.edgesFrom config)
      return graphOf packages edges.flatten) := rfl

theorem invertedGraph_of_closedAbove (h : WellTyped document) {root : PackageId}
    (hc : Declared.ClosedAbove document config root.reprId) :
    ∃ graph, (metadata document).invertedGraph config root = .ok graph ∧
      Declared.InvertedGraph document config root.reprId graph := by
  obtain ⟨order, horder, hmembers⟩ := dependents_eq h config root
  obtain ⟨packages, hpackages, heq⟩ :=
    exists_packages h order fun id hid => hc.listed id ((Declared.mem_iff_reachable horder).mp hid)
  have hids : packages.map (·.id.reprId) = order := Declared.map_reprId_of_map_some heq
  obtain ⟨edges, hedges, hmem⟩ := exists_edges h packages fun package hp =>
    hc.dependency _ ((Declared.mem_iff_reachable horder).mp (hids ▸ List.mem_map_of_mem hp))
  have hnodup := Declared.nodup_of_map_some heq horder.nodup
  refine ⟨graphOf packages edges.flatten, ?_, ?_⟩
  · rw [invertedGraph_eq, hmembers]
    show (List.mapM (m := Except Failure) _ (List.map _ _) >>= fun _ => _) = _
    rw [hpackages]
    show (packages.mapM ((metadata document).edgesFrom config) >>= fun _ => _) = _
    rw [hedges]
    rfl
  rw [graphOf_eq hnodup]
  have hcontains : ∀ (edges : List Edge) (p : PackageId),
      (⟨packages, edges⟩ : DependencyGraph).contains p ↔
        identity? document p.reprId = some p ∧ p.reprId ∈ order :=
    fun _ _ => Declared.contains_iff heq
  constructor
  case packages_eq => exact ⟨order, horder, heq⟩
  case first => rw [← List.head?_map, hids, horder.head?_eq]
  case contains_iff =>
    intro p
    rw [hcontains, Declared.mem_iff_reachable horder]
  case nodup => exact nodup_eraseDups _
  case mem_edges =>
    intro edge
    rw [List.mem_eraseDups, List.mem_filter, hmem, decide_eq_true_iff]
    constructor
    · rintro ⟨⟨-, -, hp⟩, hspans⟩
      exact ⟨hspans, hp⟩
    · rintro ⟨hspans, hp⟩
      have hsource := DependencyGraph.contains_iff.mp hspans.1
      have htarget := ((hcontains _ _).mp hspans.2).1
      exact ⟨⟨hsource, htarget, hp⟩, hspans⟩

theorem invertedGraph_ok (h : WellTyped document) (hc : Declared.Closed document)
    (config : GraphConfig) {root : PackageId} (hroot : identity? document root.reprId = some root) :
    ∃ graph, (metadata document).invertedGraph config root = .ok graph ∧
      Declared.InvertedGraph document config root.reprId graph :=
  invertedGraph_of_closedAbove h (hc.closedAbove (by simp [hroot]))

/-- Where every id of the resolve is listed, a graph of what depends on a package can be loaded from
a well-typed document, and so can every graph of what a package depends on. One package is in the
inverted graph of another if and only if the other is in its graph. -/
theorem buildGraph_inverted (h : WellTyped document) (hc : Declared.Closed document) :
    ∃ metadata, Metadata.ofJson document = .ok metadata ∧
      ∀ (config : GraphConfig) (q : PackageId), identity? document q.reprId = some q →
        ∃ graph, metadata.buildGraph { config with invert := true } q = .ok graph ∧
          Declared.InvertedGraph document config q.reprId graph ∧
          ∀ r, identity? document r.reprId = some r →
            ∃ forward, metadata.buildGraph { config with invert := false } r = .ok forward ∧
              (forward.contains q ↔ graph.contains r) := by
  refine ⟨metadata document, ofJson_eq h, fun config q hq => ?_⟩
  obtain ⟨graph, hgraph, hspec⟩ := invertedGraph_ok h hc { config with invert := true } hq
  refine ⟨graph, hgraph, hspec.of_invert, fun r hr => ?_⟩
  rcases forwardGraph_outcome h { config with invert := false } hr with
    ⟨hdangling, -⟩ | ⟨forward, hforward, hfspec⟩
  · exact absurd hdangling (hc.not_dangling r.reprId)
  · refine ⟨forward, hforward, ?_⟩
    rw [hfspec.contains_iff, hspec.contains_iff]
    exact ⟨fun hreach => ⟨hr, hreach.2⟩, fun hreach => ⟨hq, hreach.2⟩⟩

open Declared in
theorem buildGraph_sample_inverted :
    WellTyped Sample.document ∧ Closed Sample.document ∧
    ∃ metadata graph forward, Metadata.ofJson Sample.document = .ok metadata ∧
      metadata.buildGraph { Sample.config with invert := true } Sample.b = .ok graph ∧
      metadata.buildGraph { Sample.config with invert := false } Sample.a = .ok forward ∧
      InvertedGraph Sample.document Sample.config "b" graph ∧
      (forward.contains Sample.b ↔ graph.contains Sample.a) := by
  obtain ⟨metadata, hread, hall⟩ := buildGraph_inverted Sample.wellTyped Sample.closed
  obtain ⟨graph, hgraph, hspec, hdual⟩ := hall Sample.config Sample.b (by decide)
  obtain ⟨forward, hforward, hiff⟩ := hdual Sample.a (by decide)
  exact ⟨Sample.wellTyped, Sample.closed, metadata, graph, forward, hread, hgraph, hforward, hspec,
    hiff⟩

end Metadata

end UnsafeAudit
