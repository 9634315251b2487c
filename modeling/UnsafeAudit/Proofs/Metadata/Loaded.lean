import UnsafeAudit.Proofs.Graph.Reach
import UnsafeAudit.Proofs.Metadata.Closure
import UnsafeAudit.Proofs.Metadata.Loading

/-!
# Loaded graphs

Whatever the metadata, a graph that is loaded from it has no package twice and
no edge that leaves its packages (`sound_of_buildGraph_ok`). If the metadata
was read from a document, the graph has its root (`contains_root`), and so all
that its root reaches.
-/

namespace UnsafeAudit

namespace DependencyGraph

variable {graph : DependencyGraph} {direction : Direction} {root id : PackageId}

/-- No walk along edges that stay among the packages of a graph leaves them. -/
theorem contains_of_reaches (hspans : ∀ edge ∈ graph.edges, graph.Spans edge)
    (hroot : graph.contains root) (hid : graph.Reaches direction root id) : graph.contains id := by
  induction hid with
  | refl => exact hroot
  | tail _ hstep _ =>
    obtain ⟨_, -, edge, he, -, -, rfl⟩ := hstep
    cases direction with
    | outgoing => exact (hspans edge he).2
    | incoming => exact (hspans edge he).1

end DependencyGraph

namespace Metadata

variable {metadata : Metadata} {config : GraphConfig} {root : PackageId} {graph : DependencyGraph}
  {packages : List Package} {document : Json} {package : Package}

-- ---------------------------------------------------------------------------
-- Assembling
-- ---------------------------------------------------------------------------

theorem ids_graphOf (packages : List Package) (edges : List Edge) :
    (graphOf packages edges).packages.map (·.id) = (packages.map (·.id)).eraseDups := by
  rw [graphOf]
  induction edges using List.reverseRecOn with
  | nil =>
    rw [List.foldl_nil, DependencyGraph.foldl_addPackage]
    exact Table.map_key_ofList fun _ _ _ _ => rfl
  | append_singleton rest edge ih =>
    rw [List.foldl_concat, DependencyGraph.packages_addEdge_getD]
    exact ih

theorem sound_graphOf (packages : List Package) (edges : List Edge) :
    (graphOf packages edges).Sound := by
  refine ⟨ids_graphOf packages edges ▸ nodup_eraseDups _, ?_⟩
  have hsound : ∀ graph : DependencyGraph, (graph.packages.map (·.id)).Nodup → graph.edges = [] →
      (edges.foldl (fun graph edge => (graph.addEdge edge).toOption.getD graph) graph).Sound := by
    intro graph hn he
    induction edges using List.reverseRecOn with
    | nil => exact ⟨hn, by simp [he]⟩
    | append_singleton rest edge ih =>
      rw [List.foldl_concat]
      exact ih.addEdge_getD edge
  refine (hsound _ ?_ ?_).spans
  · exact ids_graphOf packages [] ▸ nodup_eraseDups _
  · rw [DependencyGraph.foldl_addPackage]

-- ---------------------------------------------------------------------------
-- Loading
-- ---------------------------------------------------------------------------

theorem subset_dependentsFrom (pairs : List (Json × Json)) (steps : Nat)
    (seen pending : List Json) :
    seen ⊆ dependentsFrom pairs steps seen pending := by
  induction steps generalizing seen pending with
  | zero => exact List.Subset.refl _
  | succ steps ih =>
    cases pending with
    | nil => exact List.Subset.refl _
    | cons key pending =>
      rw [dependentsFrom]
      refine List.Subset.trans ?_ (ih _ _)
      refine List.foldlRecOn (motive := fun found : List Json × List Json => seen ⊆ found.1) _ _
        (List.Subset.refl _) ?_
      rintro ⟨found, pending⟩ hfound parent -
      dsimp only
      split
      · exact hfound
      · exact List.Subset.trans hfound (List.subset_append_left _ _)

theorem of_invertedGraph_ok (h : metadata.invertedGraph config root = .ok graph) :
    ∃ packages edges package, graph = graphOf packages edges ∧ package ∈ packages ∧
      metadata.package (.str root.reprId) = .ok package := by
  obtain ⟨members, hmembers, h⟩ := of_bind_ok h
  obtain ⟨packages, hpackages, h⟩ := of_bind_ok h
  obtain ⟨edges, -, h⟩ := of_bind_ok h
  cases h
  obtain ⟨pairs, -, h⟩ := of_bind_ok (of_mapError_ok hmembers)
  cases h
  have hroot : .str root.reprId ∈ dependentsFrom pairs (metadata.nodes.length + 1)
      [.str root.reprId] [.str root.reprId] :=
    subset_dependentsFrom _ _ _ _ (List.mem_singleton_self _)
  obtain ⟨package, hpackage⟩ := exists_mapM_ok_iff.mp ⟨_, hpackages⟩ _ hroot
  exact ⟨packages, edges.flatten, package, rfl, (mem_of_mapM_ok hpackages).mpr ⟨_, hroot, hpackage⟩,
    of_mapError_ok hpackage⟩

theorem sound_of_buildGraph_ok (h : metadata.buildGraph config root = .ok graph) : graph.Sound := by
  rw [buildGraph] at h
  split at h
  · obtain ⟨packages, edges, -, rfl, -⟩ := of_invertedGraph_ok h
    exact sound_graphOf packages edges
  · obtain ⟨first, -, h⟩ := of_bind_ok h
    obtain ⟨found, -, h⟩ := of_bind_ok h
    cases h
    exact sound_graphOf _ _

theorem exists_root_of_buildGraph_ok (h : metadata.buildGraph config root = .ok graph) :
    ∃ package, metadata.package (.str root.reprId) = .ok package ∧ graph.contains package.id := by
  cases hinvert : config.invert with
  | false =>
    obtain ⟨first, hfirst, horder⟩ := (drawn_of_buildGraph_ok hinvert h).start
    exact ⟨first, hfirst, DependencyGraph.contains_iff.mpr ((horder.mem_iff _).mpr .refl)⟩
  | true =>
    rw [buildGraph, if_pos hinvert] at h
    obtain ⟨packages, edges, package, rfl, hmem, hpackage⟩ := of_invertedGraph_ok h
    refine ⟨package, hpackage, DependencyGraph.contains_iff.mpr ?_⟩
    rw [ids_graphOf, List.mem_eraseDups]
    exact List.mem_map_of_mem hmem

-- ---------------------------------------------------------------------------
-- Roots in metadata from a document
-- ---------------------------------------------------------------------------

theorem keyed_reprId (entries : List PackageEntry) :
    Table.Keyed (fun a b : PackageEntry => a.id.reprId = b.id.reprId) (·.id.reprId) entries :=
  fun _ _ _ _ => rfl

theorem entry?_of_mem (h : ofJson document = .ok metadata) {entry : PackageEntry}
    (he : entry ∈ metadata.packages) : entry? metadata (.str entry.id.reprId) = some entry := by
  obtain ⟨resolve, -, h⟩ := of_bind_ok h
  split at h
  · replace h := of_mapError_ok h
    iterate 10 obtain ⟨_, -, h⟩ := of_bind_ok h
    cases h
    exact Table.find?_of_mem_ofList (keyed_reprId _) he
  · cases h

theorem contains_root (h : ofJson document = .ok metadata) {spec : Option String}
    (hroot : metadata.findRoot spec = .ok root)
    (hgraph : metadata.buildGraph config root = .ok graph) :
    graph.contains root := by
  obtain ⟨entry, he, rfl⟩ := List.mem_map.mp (mem_of_findRoot_ok hroot)
  obtain ⟨package, hpackage, hcontains⟩ := exists_root_of_buildGraph_ok hgraph
  obtain ⟨listed, hlisted, hid⟩ := exists_entry_of_package_ok hpackage
  rw [entry?_of_mem h he] at hlisted
  cases hlisted
  exact hid ▸ hcontains

end Metadata

end UnsafeAudit
