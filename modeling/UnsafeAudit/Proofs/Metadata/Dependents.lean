import UnsafeAudit.Proofs.Metadata.Dependencies
import UnsafeAudit.Proofs.Search.BreadthFirst

/-!
# The search for dependents

The dependencies of all nodes are turned around, and what depends on a root is
searched in them. The search finds everything that has a chain of dependencies
to the root, in breadth-first order (`dependents_eq`).
-/

namespace UnsafeAudit

open Declared (metadata WellTyped groups nodeIds)

variable {document : Json} {config : GraphConfig}

namespace Declared

variable (document config) in
def pairs : List (String × String) :=
  (nodeIds document).flatMap fun id => (groups document config id).map fun group => (group.1, id)

theorem mem_targets_iff {id target : String} :
    target ∈ targets document config id ↔
      ∃ group ∈ groups document config id, group.1 = target := by
  rw [← mem_iff_of_eraseDups_eq (eraseDups_targets document config id) target, List.mem_map]

theorem nodup_dependents (document : Json) (config : GraphConfig) (id : String) :
    (dependents document config id).Nodup :=
  (nodup_eraseDups _).filter _

/-- What depends on a package by the pairs, but for repetitions, are its dependents. -/
theorem eraseDups_filter_pairs (document : Json) (config : GraphConfig) (key : String) :
    (((pairs document config).filter (·.1 = key)).map (·.2)).eraseDups =
      dependents document config key := by
  rw [← eraseDups_of_nodup (nodup_dependents document config key), dependents, pairs]
  induction nodeIds document with
  | nil => rfl
  | cons id rest ih =>
    have hcons : (id :: rest).filter (key ∈ targets document config ·) =
        (if key ∈ targets document config id then [id] else []) ++
          rest.filter (key ∈ targets document config ·) := by
      by_cases hkey : key ∈ targets document config id <;> simp [hkey]
    rw [List.flatMap_cons, List.filter_append, List.map_append, hcons]
    refine eraseDups_append_congr ?_ ih
    have hown : (((groups document config id).map fun group => (group.1, id)).filter
        (·.1 = key)).map (·.2) =
        ((groups document config id).filter (·.1 = key)).map fun _ => id := by
      rw [List.filter_map, List.map_map]
      rfl
    rw [hown]
    by_cases hkey : key ∈ targets document config id
    · obtain ⟨group, hg, rfl⟩ := mem_targets_iff.mp hkey
      have hne : (groups document config id).filter (·.1 = group.1) ≠ [] :=
        List.ne_nil_of_mem (List.mem_filter.mpr ⟨hg, by simp⟩)
      rw [if_pos hkey, eraseDups_map_const hne]
      simp [List.eraseDups_cons]
    · have hnone : (groups document config id).filter (·.1 = key) = [] := by
        refine List.filter_eq_nil_iff.mpr fun group hg heq => hkey ?_
        exact mem_targets_iff.mpr ⟨group, hg, by simpa using heq⟩
      rw [if_neg hkey, hnone]
      rfl

end Declared

namespace Metadata

theorem dependentPairs_eq (h : WellTyped document) (config : GraphConfig) :
    (metadata document).dependentPairs config =
      .ok ((Declared.pairs document config).map fun (target, id) => (.str target, .str id)) := by
  have hnode : ∀ node ∈ (metadata document).nodes,
      (do
        (← (metadata document).dependencies config node.key).mapM fun dependency => do
          return (← dependency.target.asKey, node.key) : Except Fault (List (Json × Json))) =
      .ok ((groups document config ((node.key.text?).getD "")).map fun group =>
        (.str group.1, node.key)) := by
    intro node hmem
    obtain ⟨d, -, rfl⟩ := List.mem_map.mp hmem
    show ((metadata document).dependencies config (.str (d.textAt "id")) >>= fun _ => _) = _
    rw [dependencies_eq h]
    show List.mapM (m := Except Fault) _ (List.map _ _) = _
    rw [List.mapM_map]
    exact mapM_ok fun _ _ => rfl
  unfold dependentPairs
  rw [mapM_ok hnode]
  refine congrArg Except.ok ?_
  show (((Declared.listed (Declared.nodes document)).map Declared.node).map _).flatten = _
  rw [Declared.pairs, nodeIds, ← Declared.map_id_listed, List.map_flatMap, List.flatMap_map,
    List.map_map, List.flatMap_def]
  refine congrArg List.flatten (List.map_congr_left fun d _ => ?_)
  rw [List.map_map]
  rfl

-- ---------------------------------------------------------------------------
-- The search
-- ---------------------------------------------------------------------------

/-- Those of some parents that were not seen are seen and queued, each once. -/
theorem foldl_parents (parents seen pending : List String) :
    (parents.map Json.str).foldl (fun (seen, pending) parent =>
        if seen.any (sameKey parent) then (seen, pending)
        else (seen ++ [parent], pending ++ [parent])) (seen.map Json.str, pending.map Json.str) =
      ((seen ++ (parents.filter (· ∉ seen)).eraseDups).map Json.str,
        (pending ++ (parents.filter (· ∉ seen)).eraseDups).map Json.str) := by
  induction parents generalizing seen pending with
  | nil => simp
  | cons parent rest ih =>
    have hseen : (seen.map Json.str).any (sameKey (.str parent)) = decide (parent ∈ seen) := by
      rw [Bool.eq_iff_iff]
      simp [sameKey]
    simp only [List.map_cons, List.foldl_cons, hseen, eraseDups_filter_cons]
    by_cases hparent : parent ∈ seen
    · simpa [hparent] using ih seen pending
    · have ih := ih (seen ++ [parent]) (pending ++ [parent])
      simp only [List.map_append, List.map_singleton] at ih
      simp only [hparent, decide_false, Bool.false_eq_true, if_false]
      rw [ih]
      simp

theorem filter_sameKey (pairs : List (String × String)) (key : String) :
    ((pairs.map fun (target, id) => (Json.str target, Json.str id)).filter
        fun (dependency, _) => sameKey dependency (.str key)).map (·.2) =
      ((pairs.filter (·.1 = key)).map (·.2)).map .str := by
  rw [List.filter_map, List.map_map, List.map_map]
  rfl

theorem dependentsFrom_cons (pairs : List (String × String)) (steps : Nat) (seen : List String)
    (key : String) (pending : List String) :
    dependentsFrom (pairs.map fun (target, id) => (.str target, .str id)) (steps + 1)
        (seen.map .str) ((key :: pending).map .str) =
      let new := (((pairs.filter (·.1 = key)).map (·.2)).filter (· ∉ seen)).eraseDups
      dependentsFrom (pairs.map fun (target, id) => (.str target, .str id)) steps
        ((seen ++ new).map .str) ((pending ++ new).map .str) := by
  rw [List.map_cons, dependentsFrom]
  simp only [filter_sameKey, foldl_parents]

/-- The search goes on until everything with a chain of dependencies to the root was seen. -/
theorem dependentsFrom_eq (steps : Nat) {root : String} {done pending : List String}
    (hf : Frontier (Declared.dependents document config) root done pending)
    (hlen : (nodeIds document).length + 1 ≤ done.length + steps) :
    ∃ order, BreadthFirst (Declared.dependents document config) root order ∧
      dependentsFrom
        ((Declared.pairs document config).map fun (target, id) => (.str target, .str id)) steps
        ((done ++ pending).map .str) (pending.map .str) = order.map .str := by
  induction steps generalizing done pending with
  | zero =>
    have hmem : ∀ id ∈ done ++ pending, id ∈ root :: nodeIds document := by
      intro id hid
      rw [hf.found_eq, List.mem_eraseDups] at hid
      rcases List.mem_cons.mp hid with rfl | hid
      · exact List.mem_cons_self
      · obtain ⟨_, -, hid⟩ := List.mem_flatMap.mp hid
        exact List.mem_cons_of_mem _ (List.mem_filter.mp hid).1
    have hpending := hf.pending_eq_nil hmem (by simpa using hlen)
    subst hpending
    exact ⟨done, hf.breadthFirst, by rw [List.append_nil]; rfl⟩
  | succ steps ih =>
    cases pending with
    | nil => exact ⟨done, hf.breadthFirst, by rw [List.append_nil]; rfl⟩
    | cons key pending =>
      have hnew : ((((Declared.pairs document config).filter (·.1 = key)).map (·.2)).filter
          (· ∉ done ++ key :: pending)).eraseDups =
          ((Declared.dependents document config key).filter
            (· ∉ done ++ key :: pending)).eraseDups := by
        rw [← filter_eraseDups, Declared.eraseDups_filter_pairs, ← filter_eraseDups,
          eraseDups_of_nodup (Declared.nodup_dependents document config key)]
      obtain ⟨order, horder, heq⟩ := ih hf.step (by simp; omega)
      refine ⟨order, horder, ?_⟩
      rw [dependentsFrom_cons, hnew, ← heq]
      simp

theorem dependents_eq (h : WellTyped document) (config : GraphConfig) (root : PackageId) :
    ∃ order, BreadthFirst (Declared.dependents document config) root.reprId order ∧
      (metadata document).dependents config root = .ok (order.map .str) := by
  have hlen : (metadata document).nodes.length = (nodeIds document).length := by
    rw [nodeIds, ← Declared.map_id_listed, List.length_map]
    exact List.length_map _
  have hinit : Frontier (Declared.dependents document config) root.reprId [] [root.reprId] :=
    .init
  obtain ⟨order, horder, heq⟩ := dependentsFrom_eq ((nodeIds document).length + 1) hinit (by simp)
  refine ⟨order, horder, ?_⟩
  rw [dependents, dependentPairs_eq h, hlen]
  exact congrArg Except.ok heq

end Metadata

end UnsafeAudit
