import UnsafeAudit.Proofs.Metadata.Closure
import UnsafeAudit.Proofs.Metadata.Inverted

/-!
# Graphs of documents with dangling ids

The resolve of a well-typed document may have nodes and dependencies whose ids
are not listed. Loading what a root depends on then fails with an error about
metadata, or the search does not come upon such an id. Loading what depends on
a root fails so as well, unless an id that is not listed itself has a chain of
dependencies to the root: it is then looked up like any package, and nothing
answers for the missing key (`buildGraph_outcome`).
-/

namespace UnsafeAudit

open Declared (metadata WellTyped groups identity? package? targets dependents)

section

variable {document : Json} {config : GraphConfig} {id : String}

-- ---------------------------------------------------------------------------
-- Looking up what is not listed
-- ---------------------------------------------------------------------------

namespace Metadata

theorem package_unlisted (h : identity? document id = none) :
    (metadata document).package (.str id) = .error (.missingKey (Text.quoted id)) := by
  have hentry := entry?_eq document id
  rw [Option.map_eq_none_iff.mp h, Option.map_none] at hentry
  rw [Metadata.package, hentry]
  rfl

/-- A target is looked up under its id, and only one that is not listed is not found. -/
theorem of_packageId_error {group : String × List DependencyKind} {failure : Failure}
    (h : (do return (← (metadata document).packageId (Dependency.ofGroup group).target,
      (Dependency.ofGroup group).kinds) : Except Failure _) = .error failure) :
    identity? document group.1 = none ∧ failure = .audit (.metadata (.unknownId group.1)) := by
  cases hid : identity? document group.1 with
  | some p =>
    have hfound : (metadata document).packageId (Dependency.ofGroup group).target = .ok p :=
      packageId_ok hid
    rw [hfound] at h
    cases h
  | none =>
    have hmissing : (metadata document).packageId (Dependency.ofGroup group).target =
        .error (.audit (.metadata (.unknownId group.1))) := packageId_dangling hid
    rw [hmissing] at h
    cases h
    exact ⟨rfl, rfl⟩

theorem of_edgesFrom_error (h : WellTyped document) {package : Package} {failure : Failure}
    (herror : (metadata document).edgesFrom config package = .error failure) :
    ∃ target ∈ targets document config package.id.reprId, identity? document target = none ∧
      failure = .audit (.metadata (.unknownId target)) := by
  rw [edgesFrom, dependencies_eq h] at herror
  rcases bind_eq_error_iff.mp herror with herror | ⟨dependencies, hdependencies, herror⟩
  · cases herror
  cases hdependencies
  rcases bind_eq_error_iff.mp herror with herror | ⟨_, -, herror⟩
  · obtain ⟨_, hmem, herror⟩ := exists_of_mapM_error herror
    obtain ⟨group, hgroup, rfl⟩ := List.mem_map.mp hmem
    obtain ⟨hnone, rfl⟩ := of_packageId_error herror
    exact ⟨group.1, Declared.mem_targets_iff.mpr ⟨group, hgroup, rfl⟩, hnone, rfl⟩
  · cases herror

theorem listed_of_edgesFrom_ok (h : WellTyped document) {package : Package} {edges : List Edge}
    (hok : (metadata document).edgesFrom config package = .ok edges) :
    ∀ target ∈ targets document config package.id.reprId, identity? document target ≠ none := by
  intro target htarget hnone
  obtain ⟨group, hgroup, rfl⟩ := Declared.mem_targets_iff.mp htarget
  rw [edgesFrom, dependencies_eq h] at hok
  obtain ⟨dependencies, hdependencies, hok⟩ := of_bind_ok hok
  cases hdependencies
  obtain ⟨resolved, hresolved, -⟩ := of_bind_ok hok
  obtain ⟨_, hfound⟩ := exists_mapM_ok_iff.mp ⟨_, hresolved⟩ _ (List.mem_map_of_mem hgroup)
  obtain ⟨_, hfound, -⟩ := of_bind_ok hfound
  cases (packageId_dangling hnone).symm.trans hfound

end Metadata

-- ---------------------------------------------------------------------------
-- The outcome
-- ---------------------------------------------------------------------------

/-- The first that has a chain of dependencies to `root` and is not listed, in the order in which
the search finds what depends on the root. -/
def Declared.FirstUnlisted (document : Json) (config : GraphConfig) (root id : String) : Prop :=
  ∃ before after, BreadthFirst (dependents document config) root (before ++ id :: after) ∧
    (∀ found ∈ before, identity? document found ≠ none) ∧ identity? document id = none

namespace Metadata

theorem of_package_error (h : WellTyped document) {fault : Fault}
    (herror : (metadata document).package (.str id) = .error fault) :
    identity? document id = none ∧ fault = .missingKey (Text.quoted id) := by
  cases hid : identity? document id with
  | some p =>
    obtain ⟨package, hpackage, -⟩ := Declared.exists_package? hid
    cases (package_ok h hpackage).symm.trans herror
  | none =>
    cases (package_unlisted hid).symm.trans herror
    exact ⟨rfl, rfl⟩

theorem listed_of_package_ok {package : Package}
    (h : (metadata document).package (.str id) = .ok package) : identity? document id ≠ none :=
  fun hnone => by cases (package_unlisted hnone).symm.trans h

/-- Loading a graph of what depends on a root ends at the first dependent that is not listed. If
there is none, it ends at a dependency that is not listed, or with the graph that the document
declares. -/
theorem invertedGraph_outcome (h : WellTyped document) (config : GraphConfig) (root : PackageId) :
    (∃ id, Declared.FirstUnlisted document config root.reprId id ∧
      (metadata document).invertedGraph config root =
        .error (.fault (.missingKey (Text.quoted id)))) ∨
    (∀ id, Reachable (targets document config) id root.reprId → identity? document id ≠ none) ∧
      (∃ id target, Reachable (targets document config) id root.reprId ∧
        target ∈ targets document config id ∧ identity? document target = none ∧
        (metadata document).invertedGraph config root =
          .error (.audit (.metadata (.unknownId target)))) ∨
    Declared.ClosedAbove document config root.reprId ∧
      ∃ graph, (metadata document).invertedGraph config root = .ok graph ∧
        Declared.InvertedGraph document config root.reprId graph := by
  obtain ⟨order, horder, hmembers⟩ := dependents_eq h config root
  have hreach : ∀ id, id ∈ order ↔ Reachable (targets document config) id root.reprId :=
    fun _ => Declared.mem_iff_reachable horder
  have hread : (metadata document).invertedGraph config root = (do
      let packages ← order.mapM fun id =>
        ((metadata document).package (.str id)).mapError Failure.fault
      let edges ← packages.mapM ((metadata document).edgesFrom config)
      return graphOf packages edges.flatten) := by
    rw [invertedGraph_eq, hmembers]
    show (List.mapM (m := Except Failure) _ (List.map _ _) >>= fun _ => _) = _
    rw [List.mapM_map]
    rfl
  cases hpackages : order.mapM fun id =>
      ((metadata document).package (.str id)).mapError Failure.fault with
  | error failure =>
    obtain ⟨before, id, after, rfl, hid, hbefore⟩ := mapM_eq_error_iff_split.mp hpackages
    obtain ⟨fault, hfault, rfl⟩ := mapError_eq_error_iff.mp hid
    obtain ⟨hnone, rfl⟩ := of_package_error h hfault
    refine .inl ⟨id, ⟨before, after, horder, fun found hfound => ?_, hnone⟩, ?_⟩
    · obtain ⟨package, hpackage⟩ := hbefore found hfound
      exact listed_of_package_ok (of_mapError_ok hpackage)
    · rw [hread, hpackages]
      rfl
  | ok packages =>
    have hlisted : ∀ id, Reachable (targets document config) id root.reprId →
        identity? document id ≠ none := by
      intro id hid
      obtain ⟨package, hpackage⟩ :=
        exists_mapM_ok_iff.mp ⟨packages, hpackages⟩ id ((hreach id).mpr hid)
      exact listed_of_package_ok (of_mapError_ok hpackage)
    have hids : packages.map (·.id.reprId) = order := by
      rw [map_of_mapM_ok hpackages fun id package hpackage =>
        reprId_of_package_ok (of_mapError_ok hpackage), List.map_id']
    cases hedges : packages.mapM ((metadata document).edgesFrom config) with
    | error failure =>
      obtain ⟨package, hpackage, herror⟩ := exists_of_mapM_error hedges
      obtain ⟨target, htarget, hnone, rfl⟩ := of_edgesFrom_error h herror
      have hmem := (hreach package.id.reprId).mp (hids ▸ List.mem_map_of_mem hpackage)
      refine .inr (.inl ⟨hlisted, package.id.reprId, target, hmem, htarget, hnone, ?_⟩)
      rw [hread, hpackages]
      show (packages.mapM ((metadata document).edgesFrom config) >>= fun _ => _) = _
      rw [hedges]
      rfl
    | ok edges =>
      have hclosed : Declared.ClosedAbove document config root.reprId := by
        refine ⟨hlisted, fun id hid => ?_⟩
        rw [← hreach, ← hids] at hid
        obtain ⟨package, hpackage, rfl⟩ := List.mem_map.mp hid
        obtain ⟨own, hown⟩ := exists_mapM_ok_iff.mp ⟨edges, hedges⟩ package hpackage
        exact listed_of_edgesFrom_ok h hown
      exact .inr (.inr ⟨hclosed, invertedGraph_of_closedAbove h hclosed⟩)

/-- What comes of loading a graph from a well-typed document, whatever ids its resolve has. What a
root depends on is loaded, or there is an error about metadata. What depends on a root is loaded, or
there is such an error, or something that is not listed depends on the root: only then nothing
answers for the failure. -/
theorem buildGraph_outcome (h : WellTyped document) :
    ∃ metadata, Metadata.ofJson document = .ok metadata ∧
      ∀ (config : GraphConfig) (spec : Option String) (root : PackageId),
        metadata.findRoot spec = .ok root →
        (config.invert = false →
          Declared.Dangling document config root.reprId ∧
            (∃ e, metadata.buildGraph config root = .error (.audit (.metadata e))) ∨
          ¬ Declared.Dangling document config root.reprId ∧
            ∃ graph, metadata.buildGraph config root = .ok graph ∧
              Declared.ForwardGraph document config root.reprId graph) ∧
        (config.invert = true →
          (∃ id, Declared.FirstUnlisted document config root.reprId id ∧
            metadata.buildGraph config root = .error (.fault (.missingKey (Text.quoted id)))) ∨
          (∀ id, Reachable (targets document config) id root.reprId →
              identity? document id ≠ none) ∧
            (∃ id target, Reachable (targets document config) id root.reprId ∧
              target ∈ targets document config id ∧ identity? document target = none ∧
              metadata.buildGraph config root = .error (.audit (.metadata (.unknownId target)))) ∨
          Declared.ClosedAbove document config root.reprId ∧
            ∃ graph, metadata.buildGraph config root = .ok graph ∧
              Declared.InvertedGraph document config root.reprId graph) := by
  refine ⟨metadata document, ofJson_eq h, fun config spec root hroot => ⟨fun hforward => ?_,
    fun hinvert => ?_⟩⟩
  · rw [buildGraph, hforward, if_neg Bool.false_ne_true]
    rcases forwardGraph_outcome h config (identity?_of_findRoot hroot) with
      hdangling | ⟨graph, hgraph, hspec⟩
    · exact .inl hdangling
    · exact .inr ⟨hspec.not_dangling, graph, hgraph, hspec⟩
  · rw [buildGraph, hinvert, if_pos rfl]
    exact invertedGraph_outcome h config root

end Metadata

end

-- ---------------------------------------------------------------------------
-- A document
-- ---------------------------------------------------------------------------

namespace Declared.Stray

/-- The resolve has a node `x` that depends on `a`, and no package is listed for it. -/
def document : Json := .obj [
  ("packages", .arr [Sample.package "a"]),
  ("resolve", .obj [
    ("root", .str "a"),
    ("nodes", .arr [Sample.node "a" [], Sample.node "x" [Sample.dependency "a" .null]])])]

def config : GraphConfig := ⟨false, false, false, true⟩

theorem wellTyped : WellTyped document := by decide

theorem unlisted : identity? document "x" = none := by decide

theorem reachable : Reachable (targets document config) "x" "a" := .single (by decide)

end Declared.Stray

namespace Metadata

open Declared

theorem buildGraph_outcome_stray : WellTyped Stray.document ∧
    ∃ metadata, Metadata.ofJson Stray.document = .ok metadata ∧
      metadata.findRoot none = .ok Sample.a ∧
      ∃ id, FirstUnlisted Stray.document Stray.config "a" id ∧
        metadata.buildGraph Stray.config Sample.a =
          .error (.fault (.missingKey (Text.quoted id))) := by
  obtain ⟨read, hread, hall⟩ := buildGraph_outcome Stray.wellTyped
  have hmetadata : read = metadata Stray.document :=
    Except.ok.inj (hread.symm.trans (ofJson_eq Stray.wellTyped))
  have hroot : read.findRoot none = .ok Sample.a := by
    rw [hmetadata]
    decide
  rcases (hall Stray.config none Sample.a hroot).2 rfl with hfirst | ⟨hlisted, -⟩ | ⟨hclosed, -⟩
  · exact ⟨Stray.wellTyped, read, hread, hroot, hfirst⟩
  · exact absurd Stray.unlisted (hlisted "x" Stray.reachable)
  · exact absurd Stray.unlisted (hclosed.listed "x" Stray.reachable)

/-- A node without a package is looked up as a package. -/
theorem buildGraph_stray_missingKey : ∃ metadata, Metadata.ofJson Stray.document = .ok metadata ∧
    metadata.findRoot none = .ok Sample.a ∧
    metadata.buildGraph Stray.config Sample.a = .error (.fault (.missingKey "'x'")) :=
  ⟨metadata Stray.document, ofJson_eq Stray.wellTyped, by decide, by rfl⟩

end Metadata

end UnsafeAudit
