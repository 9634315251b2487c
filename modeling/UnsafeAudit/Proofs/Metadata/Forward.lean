import UnsafeAudit.Proofs.Metadata.Details
import UnsafeAudit.Proofs.Metadata.Edges
import UnsafeAudit.Proofs.Search.BreadthFirst

/-!
# Graphs of what a root depends on

The search for what a root depends on either comes upon an id that is not
listed, or ends with everything that the root reaches. Loading a graph fails in
the first case and only there; in the second the graph is the one that the
document declares (`buildGraph_forward`).
-/

namespace UnsafeAudit

open Declared (metadata WellTyped groups identity? package? targets)

variable {document : Json} {config : GraphConfig}

namespace Metadata

-- ---------------------------------------------------------------------------
-- One package
-- ---------------------------------------------------------------------------

theorem discover_dangling (found : Discovered) (pending : List PackageId)
    (hp : package? document group.1 = none) :
    discover (metadata document) (found, pending) (.ofGroup group) =
      .error (.audit (.metadata (.unknownId group.1))) := by
  have hid : identity? document group.1 = none := by rw [Declared.identity?_eq, hp]; rfl
  show ((metadata document).packageId (.str group.1) >>= fun _ => _) = _
  rw [packageId_dangling hid]
  rfl

theorem discover_eq (h : WellTyped document) {found : Discovered} {package : Package}
    (hfound : Declared.Holds document found.packages) (pending : List PackageId)
    (hp : package? document group.1 = some package) :
    discover (metadata document) (found, pending) (.ofGroup group) =
      .ok (if group.1 ∈ found.packages.map (·.id.reprId) then (found, pending)
        else
          ({ found with packages := found.packages ++ [package] }, pending ++ [package.id])) := by
  have hid := Declared.identity?_of_package? hp
  show ((metadata document).packageId (.str group.1) >>= fun id =>
    if (found.packages.any fun p => p.id = id) = true then _ else
      ((metadata document).package (.str id.reprId)).mapError _ >>= fun _ => _) = _
  rw [packageId_ok hid]
  show (if (found.packages.any fun p => p.id = package.id) = true then _ else
      ((metadata document).package (.str package.id.reprId)).mapError _ >>= fun _ => _) = _
  rw [Declared.reprId_of_package? hp, package_ok h hp]
  simp only [hfound.mem_ids_iff hp, List.any_eq_true, decide_eq_true_eq]
  split <;> rfl

/-- The targets of a package are discovered one by one: the new ones are queued, unless one of
them is dangling. -/
theorem foldlM_discover (h : WellTyped document) (gs : List (String × List DependencyKind))
    (found : Discovered) (pending : List PackageId)
    (hfound : Declared.Holds document found.packages) :
    (∃ group ∈ gs, package? document group.1 = none) ∧
        (∃ e, (gs.map Dependency.ofGroup).foldlM (discover (metadata document)) (found, pending) =
          .error (.audit (.metadata e))) ∨
      (∀ group ∈ gs, package? document group.1 ≠ none) ∧
        ∃ new, (gs.map Dependency.ofGroup).foldlM (discover (metadata document)) (found, pending) =
          .ok ({ found with packages := found.packages ++ new }, pending ++ new.map (·.id)) ∧
        new.map some = (((gs.map (·.1)).filter
          (· ∉ found.packages.map (·.id.reprId))).eraseDups).map (package? document) := by
  induction gs generalizing found pending with
  | nil => exact .inr ⟨by simp, [], by simp; rfl, rfl⟩
  | cons group rest ih =>
    rw [List.map_cons, List.foldlM_cons]
    cases hp : package? document group.1 with
    | none =>
      refine .inl ⟨⟨group, List.mem_cons_self, hp⟩, .unknownId group.1, ?_⟩
      rw [discover_dangling found pending hp]
      rfl
    | some package =>
      rw [discover_eq h hfound pending hp]
      by_cases hknown : group.1 ∈ found.packages.map (·.id.reprId)
      · rw [if_pos hknown]
        rcases ih found pending hfound with ⟨⟨g, hg, hd⟩, herror⟩ | ⟨hall, new, hfold, hnew⟩
        · exact .inl ⟨⟨g, List.mem_cons_of_mem _ hg, hd⟩, herror⟩
        · refine .inr ⟨?_, new, hfold, ?_⟩
          · simpa [hp] using hall
          · rw [hnew, List.map_cons, eraseDups_filter_cons, if_pos hknown]
      · rw [if_neg hknown]
        have hfound' : Declared.Holds document (found.packages ++ [package]) := by
          intro p hmem
          rcases List.mem_append.mp hmem with hmem | hmem
          · exact hfound p hmem
          · rw [List.mem_singleton.mp hmem, Declared.reprId_of_package? hp, hp]
        rcases ih { found with packages := found.packages ++ [package] } (pending ++ [package.id])
          hfound' with ⟨⟨g, hg, hd⟩, herror⟩ | ⟨hall, new, hfold, hnew⟩
        · exact .inl ⟨⟨g, List.mem_cons_of_mem _ hg, hd⟩, herror⟩
        · refine .inr ⟨?_, package :: new, ?_, ?_⟩
          · simpa [hp] using hall
          · show List.foldlM _ _ _ = _
            rw [hfold]
            simp
          · rw [List.map_cons, hnew, List.map_cons, eraseDups_filter_cons, if_neg hknown,
              List.map_cons, hp, List.map_append, List.map_singleton,
              Declared.reprId_of_package? hp]

end Metadata

-- ---------------------------------------------------------------------------
-- The search
-- ---------------------------------------------------------------------------

/-- Something that `root` reaches depends on what is not listed. -/
def Declared.Dangling (document : Json) (config : GraphConfig) (root : String) : Prop :=
  ∃ id, Reachable (targets document config) root id ∧
    ∃ target ∈ targets document config id, identity? document target = none

theorem Declared.Closed.not_dangling (h : Closed document) (root : String) :
    ¬ Dangling document config root := by
  rintro ⟨id, -, target, ht, hnone⟩
  exact h.of_mem_targets ht hnone

/-- What a search for what `root` depends on keeps from step to step: it has expanded the packages
of `done` and has queued those of `pending`. -/
structure Expanding (document : Json) (config : GraphConfig) (root : String) (done : List String)
    (pending : List PackageId) (found : Metadata.Discovered) : Prop where
  frontier : Frontier (targets document config) root done (pending.map (·.reprId))
  packages_eq : found.packages.map some =
    (done ++ pending.map (·.reprId)).map (package? document)
  queued : ∀ p ∈ pending, identity? document p.reprId = some p
  expanded_eq : found.expanded.map (·.1.reprId) = done
  resolved : ∀ x ∈ found.expanded,
    identity? document x.1.reprId = some x.1 ∧ Resolved document config x.1 x.2

namespace Expanding

variable {root id : String} {done : List String} {p : PackageId} {pending : List PackageId}
  {found : Metadata.Discovered}

theorem holds (h : Expanding document config root done pending found) :
    Declared.Holds document found.packages := Declared.holds_of_map_some h.packages_eq

theorem exists_package (h : Expanding document config root done pending found)
    (hid : id ∈ done ++ pending.map (·.reprId)) :
    ∃ package ∈ found.packages, package? document id = some package := by
  have hmem := List.mem_map_of_mem (f := package? document) hid
  rw [← h.packages_eq] at hmem
  obtain ⟨package, hp, heq⟩ := List.mem_map.mp hmem
  exact ⟨package, hp, heq.symm⟩

theorem mem_listed (h : Expanding document config root done pending found) :
    ∀ id ∈ done ++ pending.map (·.reprId),
      id ∈ (metadata document).packages.map (·.id.reprId) := by
  intro id hid
  obtain ⟨package, -, hp⟩ := h.exists_package hid
  exact Metadata.mem_of_identity? (Declared.identity?_of_package? hp)

/-- The first package in the queue is expanded: what it depends on is found, and the edges to it are
looked up. -/
theorem step {resolved : List (PackageId × List DependencyKind)} {new : List Package}
    (h : Expanding document config root done (p :: pending) found)
    (hnew : new.map some = ((((groups document config p.reprId).map (·.1)).filter
      (· ∉ found.packages.map (·.id.reprId))).eraseDups).map (package? document))
    (hresolved : Resolved document config p resolved) :
    Expanding document config root (done ++ [p.reprId]) (pending ++ new.map (·.id))
      ⟨found.packages ++ new, found.expanded ++ [(p, resolved)]⟩ := by
  have hids := Declared.map_reprId_of_map_some h.packages_eq
  have hnewids : new.map (·.id.reprId) = ((targets document config p.reprId).filter
      (· ∉ done ++ p.reprId :: pending.map (·.reprId))).eraseDups := by
    rw [Declared.map_reprId_of_map_some hnew, hids, ← filter_eraseDups, ← filter_eraseDups,
      Declared.eraseDups_targets]
    rfl
  have hqueue : (pending ++ new.map (·.id)).map (·.reprId) =
      pending.map (·.reprId) ++ new.map (·.id.reprId) := by
    rw [List.map_append, List.map_map]
    rfl
  constructor
  case frontier =>
    rw [hqueue, hnewids]
    exact h.frontier.step
  case packages_eq =>
    rw [hqueue, List.map_append, h.packages_eq, hnew, ← Declared.map_reprId_of_map_some hnew]
    simp
  case queued =>
    intro q hq
    rcases List.mem_append.mp hq with hq | hq
    · exact h.queued q (List.mem_cons_of_mem _ hq)
    · obtain ⟨package, hp, rfl⟩ := List.mem_map.mp hq
      exact Declared.identity?_of_package? (Declared.holds_of_map_some hnew package hp)
  case expanded_eq => rw [List.map_append, h.expanded_eq]; rfl
  case resolved =>
    intro x hx
    rcases List.mem_append.mp hx with hx | hx
    · exact h.resolved x hx
    · rw [List.mem_singleton.mp hx]
      exact ⟨h.queued p List.mem_cons_self, hresolved⟩

end Expanding

namespace Metadata

theorem expand_cons (h : WellTyped document) (steps : Nat) (found : Discovered) (p : PackageId)
    (pending : List PackageId) :
    (metadata document).expand config (steps + 1) found (p :: pending) = (do
      let dependencies := (groups document config p.reprId).map Dependency.ofGroup
      let (found, pending) ← dependencies.foldlM (discover (metadata document)) (found, pending)
      let targets ← dependencies.mapM fun d => do
        return (← (metadata document).packageId d.target, d.kinds)
      (metadata document).expand config steps
        { found with expanded := found.expanded ++ [(p, targets)] } pending) := by
  rw [expand, dependencies_eq h]
  rfl

/-- A search comes upon a dangling id, or ends when everything is expanded. -/
theorem expand_outcome (h : WellTyped document) (steps : Nat) {root : String}
    {done : List String} {pending : List PackageId} {found : Discovered}
    (hs : Expanding document config root done pending found)
    (hlen : (metadata document).packages.length ≤ done.length + steps) :
    Declared.Dangling document config root ∧
        (∃ e, (metadata document).expand config steps found pending =
          .error (.audit (.metadata e))) ∨
      ∃ order found', (metadata document).expand config steps found pending = .ok found' ∧
        Expanding document config root order [] found' := by
  induction steps generalizing done pending found with
  | zero =>
    have hpending : pending = [] := by
      have hnil := hs.frontier.pending_eq_nil hs.mem_listed (by simpa using hlen)
      exact List.map_eq_nil_iff.mp hnil
    subst hpending
    exact .inr ⟨done, found, rfl, hs⟩
  | succ steps ih =>
    cases pending with
    | nil => exact .inr ⟨done, found, rfl, hs⟩
    | cons p pending =>
      rcases foldlM_discover h (groups document config p.reprId) found pending hs.holds with
        ⟨⟨group, hgroup, hdangling⟩, e, herror⟩ | ⟨hall, new, hfold, hnew⟩
      · refine .inl ⟨⟨p.reprId, hs.frontier.reached _ (by simp), group.1, ?_, ?_⟩, e, ?_⟩
        · exact (mem_iff_of_eraseDups_eq (Declared.eraseDups_targets document config p.reprId) _).mp
            (List.mem_map_of_mem hgroup)
        · rw [Declared.identity?_eq, hdangling]
          rfl
        · rw [expand_cons h]
          simp only [herror]
          rfl
      · have hlisted : ∀ group ∈ groups document config p.reprId,
            identity? document group.1 ≠ none := by
          intro group hgroup
          simpa [Declared.identity?_eq] using hall group hgroup
        obtain ⟨resolved, hread, hresolved⟩ := exists_resolved document config p hlisted
        have hnext : (metadata document).expand config (steps + 1) found (p :: pending) =
            (metadata document).expand config steps
              ⟨found.packages ++ new, found.expanded ++ [(p, resolved)]⟩
              (pending ++ new.map (·.id)) := by
          rw [expand_cons h]
          simp only [hfold]
          show (List.mapM (m := Except Failure) _ _ >>= fun _ => _) = _
          rw [hread]
          rfl
        rw [hnext]
        refine ih (hs.step hnew hresolved) ?_
        rw [List.length_append, List.length_singleton]
        omega

end Metadata

-- ---------------------------------------------------------------------------
-- The graph
-- ---------------------------------------------------------------------------

/-- A graph holds what `root` reaches, in breadth-first order, and for each package what the
document declares that it depends on. -/
structure Declared.ForwardGraph (document : Json) (config : GraphConfig) (root : String)
    (graph : DependencyGraph) : Prop where
  packages_eq : ∃ order, BreadthFirst (targets document config) root order ∧
    graph.packages.map some = order.map (package? document)
  edges_eq : ∀ package ∈ graph.packages, (graph.edgesFrom package.id .outgoing).map Edge.pair =
    (Declared.included document config package.id.reprId).eraseDups
  spans : ∀ edge ∈ graph.edges, graph.Spans edge

namespace Expanding

variable {root : String} {order : List String} {found : Metadata.Discovered} {p : PackageId}

theorem contains (h : Expanding document config root order [] found) (edges : List Edge)
    (hp : p.reprId ∈ order) (hid : identity? document p.reprId = some p) :
    (⟨found.packages, edges⟩ : DependencyGraph).contains p :=
  (Declared.contains_iff (by simpa using h.packages_eq)).mpr ⟨hid, hp⟩

theorem spans (h : Expanding document config root order [] found) (edges : List Edge)
    (hx : x ∈ found.expanded) (he : edge ∈ Metadata.edgesOf x.1 x.2) :
    (⟨found.packages, edges⟩ : DependencyGraph).Spans edge := by
  obtain ⟨hidentity, hresolved⟩ := h.resolved x hx
  have hsource : x.1.reprId ∈ order := h.expanded_eq ▸ List.mem_map_of_mem hx
  obtain ⟨hs, ht, hpair⟩ := hresolved.mem_edgesOf.mp he
  refine ⟨hs ▸ h.contains edges hsource hidentity, h.contains edges ?_ ht⟩
  have hnext : edge.target.reprId ∈ targets document config x.1.reprId :=
    List.mem_map_of_mem (f := (·.1)) hpair
  rw [← List.append_nil order]
  refine h.frontier.found_eq ▸ List.mem_eraseDups.mpr (List.mem_cons_of_mem _ ?_)
  exact List.mem_flatMap.mpr ⟨_, hsource, hnext⟩

theorem forwardGraph (h : Expanding document config root order [] found) :
    Declared.ForwardGraph document config root (Metadata.graphOf found.packages
      (found.expanded.flatMap fun (id, targets) => Metadata.edgesOf id targets)) := by
  have horder := h.frontier.breadthFirst
  have hpackages : found.packages.map some = order.map (package? document) := by
    simpa using h.packages_eq
  have hnodup := Declared.nodup_of_map_some hpackages horder.nodup
  have hexpanded : (found.expanded.map (·.1)).Nodup := by
    refine List.Nodup.of_map (·.reprId) ?_
    rw [List.map_map]
    exact h.expanded_eq ▸ horder.nodup
  have hall : (found.expanded.flatMap fun x => Metadata.edgesOf x.1 x.2).filter
      (DependencyGraph.Spans ⟨found.packages, []⟩ ·) =
        found.expanded.flatMap fun x => Metadata.edgesOf x.1 x.2 := by
    refine List.filter_eq_self.mpr fun edge he => ?_
    obtain ⟨x, hx, he⟩ := List.mem_flatMap.mp he
    exact decide_eq_true (h.spans [] hx he)
  rw [Metadata.graphOf_eq hnodup, hall]
  constructor
  case packages_eq => exact ⟨order, horder, hpackages⟩
  case edges_eq =>
    intro package hp
    have hmem : package.id.reprId ∈ found.expanded.map (·.1.reprId) := by
      rw [h.expanded_eq, ← Declared.map_reprId_of_map_some hpackages]
      exact List.mem_map_of_mem (f := (·.id.reprId)) hp
    obtain ⟨⟨p, resolved⟩, hx, hid⟩ := List.mem_map.mp hmem
    obtain ⟨hidentity, hresolved⟩ := h.resolved _ hx
    have heq : p = package.id := by
      have hpackage := Declared.identity?_of_package? (h.holds package hp)
      rw [← hid, hidentity] at hpackage
      exact Option.some.inj hpackage
    subst heq
    show ((List.eraseDups _).filter (·.source = package.id)).map Edge.pair = _
    rw [filter_eraseDups, filter_source_edgesOf hexpanded hx,
      ← map_eraseDups hresolved.pair_inj, hresolved.eraseDups_pairs]
  case spans =>
    intro edge he
    obtain ⟨x, hx, he⟩ := List.mem_flatMap.mp (List.mem_eraseDups.mp he)
    exact h.spans _ hx he

end Expanding

theorem Declared.ForwardGraph.not_dangling {root : String} {graph : DependencyGraph}
    (h : ForwardGraph document config root graph) : ¬ Dangling document config root := by
  rintro ⟨id, hid, target, htarget, hnone⟩
  obtain ⟨order, horder, hpackages⟩ := h.packages_eq
  have hmem : target ∈ order := (horder.mem_iff target).mpr (hid.tail htarget)
  obtain ⟨package, -, hpackage⟩ :=
    List.mem_map.mp (hpackages ▸ List.mem_map_of_mem (f := package? document) hmem)
  rw [identity?_of_package? hpackage.symm] at hnone
  cases hnone

theorem Declared.ForwardGraph.contains_iff {root : String} {graph : DependencyGraph}
    (h : ForwardGraph document config root graph) (p : PackageId) :
    graph.contains p ↔ identity? document p.reprId = some p ∧
      Reachable (targets document config) root p.reprId := by
  obtain ⟨order, horder, hpackages⟩ := h.packages_eq
  rw [Declared.contains_iff hpackages, horder.mem_iff]

namespace Metadata

variable {root : PackageId}

theorem forwardGraph_outcome (h : WellTyped document) (config : GraphConfig)
    (hroot : identity? document root.reprId = some root) :
    Declared.Dangling document config root.reprId ∧
        (∃ e, (metadata document).forwardGraph config root = .error (.audit (.metadata e))) ∨
      ∃ graph, (metadata document).forwardGraph config root = .ok graph ∧
        Declared.ForwardGraph document config root.reprId graph := by
  obtain ⟨package, hpackage, hid⟩ := Declared.exists_package? hroot
  have hstart : Expanding document config root.reprId [] [package.id] ⟨[package], []⟩ := by
    constructor
    case frontier => exact hid ▸ Frontier.init
    case packages_eq => simp [hid, hpackage]
    case queued => simp [hid, hroot]
    case expanded_eq => rfl
    case resolved => simp
  have hunfold : (metadata document).forwardGraph config root =
      ((metadata document).expand config (metadata document).packages.length ⟨[package], []⟩
        [package.id]).map fun found => graphOf found.packages
          (found.expanded.flatMap fun (id, targets) => edgesOf id targets) := by
    rw [forwardGraph, package_ok h hpackage]
    rfl
  rw [hunfold]
  rcases expand_outcome h (metadata document).packages.length hstart (by simp) with
    ⟨hdangling, e, herror⟩ | ⟨order, found, hfound, hend⟩
  · exact .inl ⟨hdangling, e, by rw [herror]; rfl⟩
  · exact .inr ⟨_, by rw [hfound]; rfl, hend.forwardGraph⟩

/-- Loading the graph of a root from a well-typed document fails if and only if the root reaches a
package with an included dependency that is not listed. Otherwise the graph holds what the root
reaches, in breadth-first order, and exactly the edges that the document declares. -/
theorem buildGraph_forward (h : WellTyped document) :
    ∃ metadata, Metadata.ofJson document = .ok metadata ∧
      ∀ (config : GraphConfig) (spec : Option String) (root : PackageId),
        config.invert = false → metadata.findRoot spec = .ok root →
        ((∃ e, metadata.buildGraph config root = .error (.audit (.metadata e))) ↔
          Declared.Dangling document config root.reprId) ∧
        (¬ Declared.Dangling document config root.reprId →
          ∃ graph, metadata.buildGraph config root = .ok graph ∧
            Declared.ForwardGraph document config root.reprId graph) := by
  refine ⟨metadata document, ofJson_eq h, fun config spec root hforward hroot => ?_⟩
  have hbuild : (metadata document).buildGraph config root =
      (metadata document).forwardGraph config root := by
    rw [buildGraph, hforward]
    rfl
  rw [hbuild]
  rcases forwardGraph_outcome h config (identity?_of_findRoot hroot) with
    ⟨hdangling, e, herror⟩ | ⟨graph, hgraph, hspec⟩
  · exact ⟨⟨fun _ => hdangling, fun _ => ⟨e, herror⟩⟩, fun hnot => absurd hdangling hnot⟩
  · refine ⟨⟨?_, fun hdangling => absurd hdangling hspec.not_dangling⟩,
      fun _ => ⟨graph, hgraph, hspec⟩⟩
    rintro ⟨e, herror⟩
    rw [hgraph] at herror
    cases herror

open Declared in
theorem buildGraph_sample_forward :
    WellTyped Sample.document ∧ Sample.config.invert = false ∧
    ∃ metadata graph, Metadata.ofJson Sample.document = .ok metadata ∧
      metadata.findRoot none = .ok Sample.a ∧
      metadata.buildGraph Sample.config Sample.a = .ok graph ∧
      ForwardGraph Sample.document Sample.config "a" graph := by
  obtain ⟨read, hread, hall⟩ := buildGraph_forward Sample.wellTyped
  have hmetadata : read = metadata Sample.document :=
    Except.ok.inj (hread.symm.trans (ofJson_eq Sample.wellTyped))
  have hroot : read.findRoot none = .ok Sample.a := by
    rw [hmetadata]
    decide
  obtain ⟨-, hloads⟩ := hall Sample.config none Sample.a rfl hroot
  obtain ⟨graph, hgraph, hspec⟩ := hloads (Sample.closed.not_dangling "a")
  exact ⟨Sample.wellTyped, rfl, read, graph, hread, hroot, hgraph, hspec⟩

end Metadata

end UnsafeAudit
