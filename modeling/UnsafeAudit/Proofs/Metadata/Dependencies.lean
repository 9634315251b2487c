import UnsafeAudit.Proofs.Metadata.Loading

/-!
# Dependencies in well-typed documents

The dependencies of a package are read without a fault, in groups: each one
that is included with its included kinds (`dependencies_eq`). Taken apart, the
groups are what the document declares, but for repetitions.
-/

namespace UnsafeAudit

variable {document : Json} {config : GraphConfig} {id : String}

namespace Declared

/-- A dependency with its included kinds, each once, if it has one. -/
def group? (config : GraphConfig) (dependency : Json) : Option (String × List DependencyKind) :=
  let included := ((kinds dependency).filter config.includes).eraseDups
  if included.isEmpty then none else some (dependency.textAt "pkg", included)

def groups (document : Json) (config : GraphConfig) (id : String) :
    List (String × List DependencyKind) :=
  (dependencies document id).filterMap (group? config)

theorem group?_cases (config : GraphConfig) (dependency : Json) :
    (kinds dependency).filter config.includes = [] ∧ group? config dependency = none ∨
      (kinds dependency).filter config.includes ≠ [] ∧ group? config dependency =
        some (dependency.textAt "pkg", ((kinds dependency).filter config.includes).eraseDups) := by
  unfold group?
  cases (kinds dependency).filter config.includes with
  | nil => exact .inl ⟨rfl, rfl⟩
  | cons first rest => exact .inr ⟨List.cons_ne_nil _ _, by simp [List.eraseDups_cons]⟩

/-- The groups of a package, taken apart. -/
theorem eraseDups_groups (document : Json) (config : GraphConfig) (id : String) :
    ((groups document config id).flatMap fun (target, kinds) => kinds.map (target, ·)).eraseDups =
      (included document config id).eraseDups := by
  rw [groups, List.filterMap_eq_flatMap_toList, List.flatMap_assoc]
  refine eraseDups_flatMap_congr fun dependency _ => ?_
  have hinj : ∀ l : List DependencyKind, (l.map (dependency.textAt "pkg", ·)).eraseDups =
      l.eraseDups.map (dependency.textAt "pkg", ·) :=
    fun l => map_eraseDups fun _ _ _ _ h => (Prod.mk.inj h).2
  rcases group?_cases config dependency with ⟨hnone, hgroup⟩ | ⟨-, hgroup⟩
  · rw [hgroup, hnone]
    rfl
  · simp [hgroup, hinj, eraseDups_eraseDups]

theorem eraseDups_targets (document : Json) (config : GraphConfig) (id : String) :
    ((groups document config id).map (·.1)).eraseDups =
      (targets document config id).eraseDups := by
  rw [groups, targets, included, List.filterMap_eq_flatMap_toList, List.map_flatMap,
    List.map_flatMap]
  refine eraseDups_flatMap_congr fun dependency _ => ?_
  rcases group?_cases config dependency with ⟨hnone, hgroup⟩ | ⟨hsome, hgroup⟩
  · rw [hgroup, hnone]
    rfl
  · rw [hgroup, List.map_map]
    exact (eraseDups_map_const hsome _).symm

theorem mem_dependencies {id : String} (h : dependency ∈ dependencies document id) :
    ∃ node ∈ nodes document, node.textAt "id" = id ∧ dependency ∈ node.itemsAt "deps" := by
  unfold dependencies at h
  split at h
  · rename_i node hnode
    obtain ⟨hmem, hid⟩ := mem_of_last? hnode
    exact ⟨node, hmem, hid, h⟩
  · cases h

theorem Closed.of_mem_targets {id target : String} (h : Closed document)
    (ht : target ∈ targets document config id) : identity? document target ≠ none := by
  obtain ⟨_, hmem, rfl⟩ := List.mem_map.mp ht
  obtain ⟨dependency, hd, hmem⟩ := List.mem_flatMap.mp hmem
  obtain ⟨_, -, rfl⟩ := List.mem_map.mp hmem
  obtain ⟨node, hnode, -, hdeps⟩ := mem_dependencies hd
  exact h.dependency node hnode dependency hdeps

end Declared

namespace Metadata

open Declared (metadata WellTyped)

theorem dependencyKinds_eq (h : Declared.dependencyShape dependency) :
    dependencyKinds dependency = .ok (Declared.kinds dependency).eraseDups := by
  have hentry : ∀ entry ∈ dependency.itemsAt "dep_kinds",
      (do return dependencyKind (← entry.optional "kind" .null) (← entry.optional "target" .null) :
        Except Fault DependencyKind) =
      .ok (dependencyKind (.ofOption .str (entry.textAt? "kind"))
        (.ofOption .str (entry.textAt? "target"))) := by
    intro entry hentry
    have hshape := Json.shape_of_mem_itemsAt_orNull "dep_kinds" h rfl entry hentry
    rw [Json.optional_text_orNull "kind" hshape rfl, Json.optional_text_orNull "target" hshape rfl]
    rfl
  unfold dependencyKinds Declared.kinds
  rcases Json.optional_list_orNull "dep_kinds" h rfl with ⟨hread, hnil⟩ | hread
  · rw [hread, hnil]
    rfl
  · rw [hread]
    cases hitems : dependency.itemsAt "dep_kinds" with
    | nil => rfl
    | cons first rest =>
      show (List.mapM (m := Except Fault) _ (first :: rest) >>= fun _ => _) = _
      rw [mapM_ok (hitems ▸ hentry)]
      rfl

def Dependency.ofGroup (group : String × List DependencyKind) : Dependency :=
  ⟨.str group.1, group.2⟩

theorem dependencies_eq (h : WellTyped document) (config : GraphConfig) (id : String) :
    (metadata document).dependencies config (.str id) =
      .ok ((Declared.groups document config id).map Dependency.ofGroup) := by
  have hread : ∀ dependency ∈ Declared.dependencies document id,
      (do
        let kinds := (← dependencyKinds dependency).filter config.includes
        if kinds.isEmpty then return none
        else return some ⟨← dependency.needed "pkg", kinds⟩ : Except Fault (Option Dependency)) =
      .ok ((Declared.group? config dependency).map Dependency.ofGroup) := by
    intro dependency hdependency
    have hshape := h.dependency id dependency hdependency
    rw [dependencyKinds_eq hshape, Json.needed_text "pkg" hshape rfl]
    show (if ((Declared.kinds dependency).eraseDups.filter config.includes).isEmpty = true
      then _ else _) = _
    rw [filter_eraseDups, Declared.group?]
    split <;> rfl
  have hdeps : ((metadata document).nodeOf (.str id)).optional "deps" (.arr []) =
      .ok (.arr (Declared.dependencies document id)) := by
    rw [nodeOf_eq, Declared.dependencies]
    cases hnode : Declared.last? (Declared.nodes document) id with
    | none => rfl
    | some node =>
      exact Json.optional_list "deps" (h.node node (Declared.mem_of_last? hnode).1) rfl
  unfold dependencies
  rw [hdeps]
  show List.filterMapM (m := Except Fault) _ (Declared.dependencies document id) = _
  rw [filterMapM_ok hread, Declared.groups, List.map_filterMap]

end Metadata

end UnsafeAudit
