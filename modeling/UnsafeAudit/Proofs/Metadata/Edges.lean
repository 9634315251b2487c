import UnsafeAudit.Proofs.Metadata.Assembly
import UnsafeAudit.Proofs.Metadata.Dependencies

/-!
# Edges from declared dependencies

The targets of a package are looked up without a failure if all of them are
listed. The edges to them are then those that the document declares.
-/

namespace UnsafeAudit

open Declared (metadata WellTyped groups identity?)

variable {document : Json} {config : GraphConfig} {p : PackageId}
  {targets : List (PackageId × List DependencyKind)}

def Edge.pair (edge : Edge) : String × DependencyKind := (edge.target.reprId, edge.kind)

/-- Edges from one source to targets of the document are told apart by what they say. -/
theorem Edge.eq_of_pair_eq {a b : Edge} (ha : identity? document a.target.reprId = some a.target)
    (hb : identity? document b.target.reprId = some b.target) (hsource : a.source = b.source)
    (hpair : a.pair = b.pair) : a = b := by
  obtain ⟨hid, hkind⟩ := Prod.mk.inj hpair
  have htarget : a.target = b.target := by
    rw [hid, hb] at ha
    exact (Option.some.inj ha).symm
  cases a
  cases b
  simp_all

/-- The targets of a package with their kinds, looked up for the dependencies it declares. -/
structure Resolved (document : Json) (config : GraphConfig) (p : PackageId)
    (targets : List (PackageId × List DependencyKind)) : Prop where
  groups_eq : targets.map (fun (target, kinds) => (target.reprId, kinds)) =
    groups document config p.reprId
  identity : ∀ target ∈ targets, identity? document target.1.reprId = some target.1

namespace Resolved

theorem source (h : edge ∈ Metadata.edgesOf p targets) : edge.source = p := by
  obtain ⟨_, -, h⟩ := List.mem_flatMap.mp h
  obtain ⟨_, -, rfl⟩ := List.mem_map.mp h
  rfl

theorem target (h : Resolved document config p targets) (he : edge ∈ Metadata.edgesOf p targets) :
    identity? document edge.target.reprId = some edge.target := by
  obtain ⟨target, ht, he⟩ := List.mem_flatMap.mp he
  obtain ⟨_, -, rfl⟩ := List.mem_map.mp he
  exact h.identity target ht

theorem eraseDups_pairs (h : Resolved document config p targets) :
    ((Metadata.edgesOf p targets).map Edge.pair).eraseDups =
      (Declared.included document config p.reprId).eraseDups := by
  rw [← Declared.eraseDups_groups, ← h.groups_eq, Metadata.edgesOf, List.map_flatMap,
    List.flatMap_map]
  simp only [List.map_map]
  rfl

theorem pair_inj (h : Resolved document config p targets) :
    ∀ a ∈ Metadata.edgesOf p targets, ∀ b ∈ Metadata.edgesOf p targets,
      a.pair = b.pair → a = b := by
  intro a ha b hb hab
  have hsource : a.source = b.source := (source ha).trans (source hb).symm
  exact Edge.eq_of_pair_eq (h.target ha) (h.target hb) hsource hab

theorem mem_edgesOf (h : Resolved document config p targets) :
    edge ∈ Metadata.edgesOf p targets ↔ edge.source = p ∧
      identity? document edge.target.reprId = some edge.target ∧
      edge.pair ∈ Declared.included document config p.reprId := by
  have hpairs := mem_iff_of_eraseDups_eq h.eraseDups_pairs edge.pair
  constructor
  · intro he
    exact ⟨source he, h.target he, hpairs.mp (List.mem_map_of_mem he)⟩
  · rintro ⟨hs, ht, hp⟩
    obtain ⟨other, ho, heq⟩ := List.mem_map.mp (hpairs.mpr hp)
    have hsource : other.source = edge.source := (source ho).trans hs.symm
    exact Edge.eq_of_pair_eq (h.target ho) ht hsource heq ▸ ho

end Resolved

theorem filter_source_edgesOf {l : List (PackageId × List (PackageId × List DependencyKind))}
    (hn : (l.map (·.1)).Nodup) (hp : (p, targets) ∈ l) :
    (l.flatMap fun x => Metadata.edgesOf x.1 x.2).filter (·.source = p) =
      Metadata.edgesOf p targets := by
  have hown : ∀ q ts, q = p → (Metadata.edgesOf q ts).filter (·.source = p) =
      Metadata.edgesOf q ts := by
    intro q ts hq
    exact List.filter_eq_self.mpr fun e he => by simp [Resolved.source he, hq]
  have hother : ∀ q ts, q ≠ p → (Metadata.edgesOf q ts).filter (·.source = p) = [] := by
    intro q ts hq
    exact List.filter_eq_nil_iff.mpr fun e he => by simp [Resolved.source he, hq]
  induction l with
  | nil => cases hp
  | cons x rest ih =>
    obtain ⟨hnew, hn⟩ := List.nodup_cons.mp hn
    rw [List.flatMap_cons, List.filter_append]
    rcases List.mem_cons.mp hp with rfl | hp
    · have hnone : (rest.flatMap fun x => Metadata.edgesOf x.1 x.2).filter (·.source = p) = [] := by
        rw [List.filter_flatMap, List.flatMap_eq_nil_iff]
        intro y hy
        refine hother _ _ fun heq => hnew ?_
        rw [← heq]
        exact List.mem_map_of_mem (f := (·.1)) hy
      rw [hown _ _ rfl, hnone, List.append_nil]
    · have hne : x.1 ≠ p := by
        rintro rfl
        exact hnew (List.mem_map_of_mem (f := (·.1)) hp)
      rw [hother _ _ hne, List.nil_append, ih hn hp]

namespace Metadata

theorem exists_resolved (document : Json) (config : GraphConfig) (p : PackageId)
    (h : ∀ group ∈ groups document config p.reprId, identity? document group.1 ≠ none) :
    ∃ targets, ((groups document config p.reprId).map Dependency.ofGroup).mapM (fun d => do
        return (← (metadata document).packageId d.target, d.kinds)) = .ok targets ∧
      Resolved document config p targets := by
  suffices hall : ∃ targets : List (PackageId × List DependencyKind),
      ((groups document config p.reprId).map Dependency.ofGroup).mapM (fun d => do
        return (← (metadata document).packageId d.target, d.kinds)) = .ok targets ∧
      targets.map (fun (target, kinds) => (target.reprId, kinds)) =
        groups document config p.reprId ∧
      ∀ target ∈ targets, identity? document target.1.reprId = some target.1 by
    obtain ⟨targets, hread, hgroups, hidentity⟩ := hall
    exact ⟨targets, hread, hgroups, hidentity⟩
  generalize groups document config p.reprId = gs at h
  induction gs with
  | nil => exact ⟨[], rfl, rfl, by simp⟩
  | cons group rest ih =>
    obtain ⟨targets, hread, hgroups, hidentity⟩ :=
      ih fun g hg => h g (List.mem_cons_of_mem _ hg)
    obtain ⟨target, htarget⟩ := Option.ne_none_iff_exists'.mp (h group List.mem_cons_self)
    refine ⟨(target, group.2) :: targets, ?_, ?_, ?_⟩
    · rw [List.map_cons, List.mapM_cons, hread]
      show ((metadata document).packageId (.str group.1) >>= fun _ => _) >>= _ = _
      rw [packageId_ok htarget]
      rfl
    · rw [List.map_cons, hgroups]
      show (target.reprId, group.2) :: rest = group :: rest
      rw [reprId_of_identity? htarget]
    · intro t ht
      rcases List.mem_cons.mp ht with rfl | ht
      · rw [reprId_of_identity? htarget]
        exact htarget
      · exact hidentity t ht

end Metadata

end UnsafeAudit
