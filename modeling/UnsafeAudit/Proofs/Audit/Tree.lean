import UnsafeAudit.Audit.Basic
import UnsafeAudit.Proofs.Metadata.Inverted
import UnsafeAudit.Proofs.Metadata.Loaded
import UnsafeAudit.Proofs.Tree.Shown

/-!
# The tree of an audit

A graph that was loaded holds what its root reaches in the document, and its
tree shows what its root reaches in the graph. The tree follows all kinds of
dependencies but the last, so that, where no dependency of the last kind is
included, the tree shows exactly the packages of the graph
(`walk_shows_audited`).
-/

namespace UnsafeAudit

open Declared (WellTyped Closed metadata identity? targets dependents included)

variable {document : Json} {config : GraphConfig} {direction : Direction} {root : PackageId}
  {graph : DependencyGraph} {a b : String}

namespace Declared

def adjacent (document : Json) (config : GraphConfig) : Direction → String → List String
  | .outgoing => targets document config
  | .incoming => dependents document config

theorem Closed.of_adjacent (h : Closed document) (hb : b ∈ adjacent document config direction a) :
    identity? document b ≠ none := by
  cases direction with
  | outgoing => exact h.of_mem_targets hb
  | incoming => exact h.of_mem_nodeIds (List.mem_filter.mp hb).1

/-- A graph holds what can be reached from `root` in a direction, and the edges that the document
declares between these packages. -/
structure Spanned (document : Json) (config : GraphConfig) (direction : Direction) (root : String)
    (graph : DependencyGraph) : Prop where
  contains_iff : ∀ p, graph.contains p ↔ identity? document p.reprId = some p ∧
    Reachable (adjacent document config direction) root p.reprId
  mem_edges : ∀ edge, edge ∈ graph.edges ↔
    graph.Spans edge ∧ edge.pair ∈ included document config edge.source.reprId

theorem ForwardGraph.spanned {root : String} (h : ForwardGraph document config root graph) :
    Spanned document config .outgoing root graph where
  contains_iff := h.contains_iff
  mem_edges edge := by
    have hfrom : ∀ other : Edge, other ∈ graph.edgesFrom edge.source .outgoing ↔
        other ∈ graph.edges ∧ other.source = edge.source := by
      intro other
      rw [DependencyGraph.edgesFrom, List.mem_filter]
      exact and_congr_right fun _ => decide_eq_true_iff
    have hpairs : graph.contains edge.source → (edge.pair ∈ included document config
        edge.source.reprId ↔ ∃ other ∈ graph.edges, other.source = edge.source ∧
          other.pair = edge.pair) := by
      intro hsource
      obtain ⟨package, hp, hid⟩ := List.mem_map.mp (DependencyGraph.contains_iff.mp hsource)
      rw [← hid, ← List.mem_eraseDups, ← h.edges_eq package hp, hid, List.mem_map]
      simp only [hfrom, and_assoc]
    constructor
    · intro he
      have hspans := h.spans edge he
      exact ⟨hspans, (hpairs hspans.1).mpr ⟨edge, he, rfl, rfl⟩⟩
    · rintro ⟨hspans, hpair⟩
      obtain ⟨other, ho, hsource, hpair⟩ := (hpairs hspans.1).mp hpair
      have htarget := ((h.contains_iff _).mp hspans.2).1
      have htarget' := ((h.contains_iff _).mp (h.spans other ho).2).1
      exact Edge.eq_of_pair_eq htarget' htarget hsource hpair ▸ ho

theorem InvertedGraph.spanned {root : String} (h : InvertedGraph document config root graph) :
    Spanned document config .incoming root graph where
  contains_iff p := by
    rw [h.contains_iff]
    exact and_congr_right fun _ => reachable_swap fun _ _ => mem_dependents_iff
  mem_edges := h.mem_edges

namespace Spanned

theorem spans (h : Spanned document config direction root.reprId graph) {edge : Edge}
    (he : edge ∈ graph.edges) : graph.Spans edge := ((h.mem_edges edge).mp he).1

theorem contains_of_reaches (h : Spanned document config direction root.reprId graph)
    (hroot : identity? document root.reprId = some root) {id : PackageId}
    (hid : graph.Reaches direction root id) : graph.contains id :=
  DependencyGraph.contains_of_reaches (fun _ => h.spans) ((h.contains_iff root).mpr ⟨hroot, .refl⟩)
    hid

/-- A step in the document is an edge in the graph, which can be followed unless its kind is the
last. -/
theorem leads_of_adjacent (h : Spanned document config direction root.reprId graph)
    {p q : PackageId} (hp : graph.contains p) (hq : graph.contains q)
    (hpq : q.reprId ∈ adjacent document config direction p.reprId) :
    ∃ kind, graph.Leads direction p kind q ∧
      ∃ id target, (target, kind) ∈ included document config id := by
  cases direction with
  | outgoing =>
    obtain ⟨⟨target, kind⟩, hincluded, htarget⟩ := List.mem_map.mp hpq
    obtain rfl : target = q.reprId := htarget
    refine ⟨kind, ⟨⟨p, q, kind⟩, ?_, rfl, rfl, rfl⟩, _, _, hincluded⟩
    exact (h.mem_edges _).mpr ⟨⟨hp, hq⟩, hincluded⟩
  | incoming =>
    obtain ⟨⟨target, kind⟩, hincluded, htarget⟩ := List.mem_map.mp (mem_dependents_iff.mpr hpq)
    obtain rfl : target = p.reprId := htarget
    refine ⟨kind, ⟨⟨q, p, kind⟩, ?_, rfl, rfl, rfl⟩, _, _, hincluded⟩
    exact (h.mem_edges _).mpr ⟨⟨hq, hp⟩, hincluded⟩

theorem reaches_iff (h : Spanned document config direction root.reprId graph)
    (hc : Closed document) (hroot : identity? document root.reprId = some root)
    (hother : ∀ id target, (target, .other) ∉ included document config id) (id : PackageId) :
    graph.Reaches direction root id ↔ graph.contains id := by
  refine ⟨h.contains_of_reaches hroot, fun hid => ?_⟩
  have hreached : ∀ b, Reachable (adjacent document config direction) root.reprId b →
      ∃ q, identity? document b = some q ∧ graph.Reaches direction root q := by
    intro b hb
    induction hb with
    | refl => exact ⟨root, hroot, .refl⟩
    | @tail a b hab hnext ih =>
      obtain ⟨p, hp, hreaches⟩ := ih
      obtain ⟨q, hq⟩ := Option.ne_none_iff_exists'.mp (hc.of_adjacent hnext)
      obtain rfl := Metadata.reprId_of_identity? hp
      obtain rfl := Metadata.reprId_of_identity? hq
      have hcontains := (h.contains_iff p).mpr ⟨hp, hab⟩
      have hcontains' := (h.contains_iff q).mpr ⟨hq, hab.tail hnext⟩
      obtain ⟨kind, hleads, _, _, hincluded⟩ := h.leads_of_adjacent hcontains hcontains' hnext
      have hkind : kind ≠ .other := by
        rintro rfl
        exact hother _ _ hincluded
      exact ⟨q, hq, hreaches.tail ⟨kind, hkind, hleads⟩⟩
  obtain ⟨hidentity, hreachable⟩ := (h.contains_iff id).mp hid
  obtain ⟨q, hq, hreaches⟩ := hreached _ hreachable
  rw [hidentity] at hq
  cases hq
  exact hreaches

end Spanned

end Declared

theorem Metadata.exists_buildGraph (h : WellTyped document) (hc : Closed document) (config : Config)
    (hroot : identity? document root.reprId = some root) :
    ∃ graph, (metadata document).buildGraph config.graph root = .ok graph ∧
      Declared.Spanned document config.graph (TreeOptions.ofConfig config).direction root.reprId
        graph := by
  rw [Metadata.buildGraph, TreeOptions.ofConfig]
  cases config.graph.invert with
  | true =>
    obtain ⟨graph, hgraph, hspec⟩ := Metadata.invertedGraph_ok h hc config.graph hroot
    exact ⟨graph, hgraph, hspec.spanned⟩
  | false =>
    rcases Metadata.forwardGraph_outcome h config.graph hroot with
      ⟨hdangling, -⟩ | ⟨graph, hgraph, hspec⟩
    · exact absurd hdangling (hc.not_dangling root.reprId)
    · exact ⟨graph, hgraph, hspec.spanned⟩

namespace Audit

/-- Where every id of the resolve is listed and no dependency of the last kind is included, the
tree shows the packages of the graph and no others, in either direction and whatever the output is
to look like. So the lines of a report show the packages that it has summaries of. -/
theorem walk_shows_audited (h : WellTyped document) (hc : Closed document) :
    ∃ metadata, Metadata.ofJson document = .ok metadata ∧
      ∀ (config : Config) (root : PackageId), identity? document root.reprId = some root →
        (∀ id target, (target, .other) ∉ included document config.graph id) →
        ∃ graph, metadata.buildGraph config.graph root = .ok graph ∧
          (∀ verdictOf id, id ∈ TreeLines.ids (graph.walk (.ofConfig config) verdictOf root) ↔
            id ∈ graph.packages.map (·.id)) ∧
          ∀ (audit : Audit) clock compiled found, audit.config = config →
            let report := audit.report clock root graph compiled found
            ∀ id, id ∈ TreeLines.ids report.lines ↔ id ∈ report.packages.map (·.packageId) := by
  refine ⟨Declared.metadata document, Metadata.ofJson_eq h, fun config root hroot hother => ?_⟩
  obtain ⟨graph, hgraph, hspanned⟩ := Metadata.exists_buildGraph h hc config hroot
  have hshows : ∀ verdictOf id, id ∈ TreeLines.ids (graph.walk (.ofConfig config) verdictOf root) ↔
      id ∈ graph.packages.map (·.id) := by
    intro verdictOf id
    rw [DependencyGraph.mem_ids_walk_iff, hspanned.reaches_iff hc hroot hother,
      DependencyGraph.contains_iff]
  refine ⟨graph, hgraph, hshows, ?_⟩
  rintro audit clock compiled found rfl report id
  have hsummaries : report.packages.map (·.packageId) = graph.packages.map (·.id) :=
    List.map_map
  rw [hsummaries]
  exact hshows found.verdictOf id

open Declared in
theorem no_other_sample (id target : String) :
    (target, .other) ∉ included Sample.document Sample.config id := by
  have hkinds : ∀ node ∈ nodes Sample.document, ∀ dependency ∈ node.itemsAt "deps",
      .other ∉ (kinds dependency).filter Sample.config.includes := by decide
  intro h
  obtain ⟨dependency, hd, hkind⟩ := List.mem_flatMap.mp h
  obtain ⟨kind, hkind, heq⟩ := List.mem_map.mp hkind
  obtain ⟨node, hnode, -, hdependency⟩ := mem_dependencies hd
  obtain rfl : kind = .other := (Prod.mk.inj heq).2
  exact hkinds node hnode dependency hdependency hkind

open Declared in
/-- The tree of what depends on `b`, in a graph where packages depend on each other. -/
theorem walk_shows_audited_sample :
    let settings : Config :=
      { Config.default with graph := { Sample.config with invert := true } }
    WellTyped Sample.document ∧ Closed Sample.document ∧
    identity? Sample.document Sample.b.reprId = some Sample.b ∧
    (∀ id target, (target, .other) ∉ included Sample.document settings.graph id) ∧
    ∃ metadata graph, Metadata.ofJson Sample.document = .ok metadata ∧
      metadata.buildGraph settings.graph Sample.b = .ok graph ∧
      ∀ verdictOf id,
        id ∈ TreeLines.ids (graph.walk (.ofConfig settings) verdictOf Sample.b) ↔
          id ∈ graph.packages.map (·.id) := by
  intro settings
  have hroot : identity? Sample.document Sample.b.reprId = some Sample.b := by decide
  have hother : ∀ id target, (target, .other) ∉ included Sample.document settings.graph id :=
    no_other_sample
  obtain ⟨metadata, hread, hall⟩ := walk_shows_audited Sample.wellTyped Sample.closed
  obtain ⟨graph, hgraph, hshows, -⟩ := hall settings Sample.b hroot hother
  exact ⟨Sample.wellTyped, Sample.closed, hroot, hother, metadata, graph, hread, hgraph, hshows⟩

end Audit

end UnsafeAudit
