import UnsafeAudit.Proofs.Graph.Calls
import UnsafeAudit.Proofs.Tree.Growth

/-!
# Walks against the edges

A walk sees of a graph only what its branches are. So a walk against the edges is a walk along the
edges of the reversed graph, and this is the graph that the same calls build with all edges turned
round (`walk_incoming_eq_outgoing`).
-/

namespace UnsafeAudit

namespace Grows

variable {graph graph' : DependencyGraph} {direction direction' : Direction} {all : Bool}

/-- What a walk grows in one graph it grows in every other one with the same branches. -/
theorem congr (h : Grows graph direction all path shown branches o)
    (hb : ∀ id, graph.branches direction id = graph'.branches direction' id) :
    Grows graph' direction' all path shown branches o := by
  induction h with
  | nil => exact .nil
  | header _ ih => exact .header ih
  | listed hl _ ih => exact .listed hl ih
  | expanded hp hs _ _ ihb ihr => exact .expanded hp hs (hb _ ▸ ihb) ihr

/-- A walk grows one outline only. -/
theorem unique (h : Grows graph direction all path shown branches o)
    (h' : Grows graph direction all path shown branches o') : o = o' := by
  induction h generalizing o' with
  | nil =>
    cases h'
    rfl
  | header _ ih =>
    cases h' with
    | header hrest => rw [ih hrest]
  | listed hl _ ih =>
    cases h' with
    | listed _ hrest => rw [ih hrest]
    | expanded hp hs _ _ => exact absurd hl (by simp_all)
  | expanded hp hs _ _ ihb ihr =>
    cases h' with
    | listed hl _ => exact absurd hl (by simp_all)
    | expanded _ _ hbelow hrest =>
      obtain rfl := ihb hbelow
      rw [ihr hrest]

end Grows

namespace DependencyGraph

variable {graph graph' : DependencyGraph} {options options' : TreeOptions}

theorem walk_congr
    (hb : ∀ id, graph.branches options.direction id = graph'.branches options'.direction id)
    (hall : options.all = options'.all) (hbare : options.linePrefix = options'.linePrefix)
    (hcharset : options.charset = options'.charset) (verdictOf : PackageId → Verdict)
    (root : PackageId) :
    graph.walk options verdictOf root = graph'.walk options' verdictOf root := by
  obtain ⟨below, hgrows, hwalk⟩ := walk_eq_lines graph options verdictOf root
  obtain ⟨below', hgrows', hwalk'⟩ := walk_eq_lines graph' options' verdictOf root
  have hsame := hgrows.congr hb
  rw [hb root, hall] at hsame
  obtain rfl := hsame.unique hgrows'
  rw [hwalk, hwalk', Occurrence.lines_congr verdictOf hbare hcharset]

theorem branches_reversed (graph : DependencyGraph) (direction : Direction) (id : PackageId) :
    graph.reversed.branches direction.flip id = graph.branches direction id := by
  simp only [branches, neighbors_reversed]

/-- Where calls build a graph, the same calls with every edge turned round fail at the same places
and build a graph that has, for each package, the outgoing edges that were incoming ones, turned
round and in their order; a walk along its edges is a walk against those of the first graph. -/
theorem walk_incoming_eq_outgoing (calls : List GraphCall) :
    let graph := build calls
    let turned := build (calls.map GraphCall.reversed)
    (∀ call : GraphCall, call.Fails graph ↔ call.reversed.Fails turned) ∧
    (∀ id, graph.edgesFrom id .incoming = (turned.edgesFrom id .outgoing).map Edge.reversed) ∧
    ∀ (options : TreeOptions) verdictOf root,
      graph.walk { options with direction := .incoming } verdictOf root =
        turned.walk { options with direction := .outgoing } verdictOf root := by
  intro graph turned
  have hturned : turned = graph.reversed := build_map_reversed calls
  rw [hturned]
  refine ⟨fun call => (call.fails_reversed_iff graph).symm, fun id => ?_,
    fun options verdictOf root => ?_⟩
  · have hedges := graph.edgesFrom_reversed id .incoming
    rw [show graph.reversed.edgesFrom id .outgoing = _ from hedges, List.map_map]
    exact (List.map_id _).symm
  · refine walk_congr (fun id => ?_) ?_ ?_ ?_ verdictOf root
    · exact (graph.branches_reversed .incoming id).symm
    all_goals rfl

end DependencyGraph

end UnsafeAudit
