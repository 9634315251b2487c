import UnsafeAudit.Proofs.Graph.Reach
import UnsafeAudit.Proofs.Tree.Lines
import UnsafeAudit.Tree.Walk

/-!
# What stands below an expanded package

The entries that an expanded package is to have below it, and the hops that a
walk can take from it, are said on the neighbours alone. The branches that the
walk goes through are both of these.
-/

namespace UnsafeAudit

/-- The kinds that a tree shows, in the order in which it shows them. -/
def DependencyKind.shown : List DependencyKind := [.normal, .build, .development, .targetSpecific]

/-- One step of a walk: along a dependency of a kind to a package. -/
structure Hop where
  kind : DependencyKind
  target : PackageId
  deriving DecidableEq, Repr

namespace DependencyGraph

/-- What is to stand directly below an expanded package: kind by kind one entry for each
neighbour, and above them a header if the kind has one and there are neighbours. -/
def entriesBelow (graph : DependencyGraph) (direction : Direction) (id : PackageId) : List Entry :=
  DependencyKind.shown.flatMap fun kind =>
    (if kind ≠ .normal ∧ graph.neighbors id direction kind ≠ [] then [.header kind] else []) ++
      (graph.neighbors id direction kind).map .package

/-- The hops from a package, kind by kind and then in the order of its neighbours. -/
def hops (graph : DependencyGraph) (direction : Direction) (id : PackageId) : List Hop :=
  DependencyKind.shown.flatMap fun kind => (graph.neighbors id direction kind).map (Hop.mk kind)

end DependencyGraph

namespace Branch

/-- What a branch shows, without its memory of what follows. -/
def entry : Branch → Entry
  | .header kind => .header kind
  | .child id _ => .package id

/-- The hops that branches stand for. Up to the first header they are of the given kind. -/
def hops (kind : DependencyKind) : List Branch → List Hop
  | [] => []
  | .header kind :: rest => hops kind rest
  | .child id _ :: rest => ⟨kind, id⟩ :: hops kind rest

/-- Every header stands directly above a child. -/
def Headed : List Branch → Prop
  | [] => True
  | .header _ :: rest => (∃ id continues more, rest = .child id continues :: more) ∧ Headed rest
  | .child _ _ :: rest => Headed rest

theorem map_entry_children (ids : List PackageId) :
    (children ids).map entry = ids.map .package := by
  induction ids with
  | nil => rfl
  | cons id rest ih => simp [children, entry, ih]

theorem hops_children_append (kind : DependencyKind) (ids : List PackageId) (rest : List Branch) :
    hops kind (children ids ++ rest) = ids.map (Hop.mk kind) ++ hops kind rest := by
  induction ids with
  | nil => rfl
  | cons id ids ih => simp [children, hops, ih]

theorem headed_children_append (ids : List PackageId) (h : Headed rest) :
    Headed (children ids ++ rest) := by
  induction ids with
  | nil => exact h
  | cons id ids ih => exact ih

theorem group_normal (ids : List PackageId) : group .normal ids = children ids := by
  cases ids <;> rfl

theorem group_other (ids : List PackageId) : group .other ids = [] := by
  cases ids <;> rfl

theorem group_nil (kind : DependencyKind) : group kind [] = [] := rfl

theorem group_cons (h : kind.group?.isSome) (id : PackageId) (ids : List PackageId) :
    group kind (id :: ids) = .header kind :: children (id :: ids) := by
  cases kind <;> first | rfl | simp [DependencyKind.group?] at h

theorem hops_group_append (kind : DependencyKind) (h : kind.group?.isSome) (last : DependencyKind)
    (ids : List PackageId) (rest : List Branch) :
    ∃ next, hops last (group kind ids ++ rest) = ids.map (Hop.mk kind) ++ hops next rest := by
  cases ids with
  | nil => exact ⟨last, rfl⟩
  | cons id ids =>
    refine ⟨kind, ?_⟩
    rw [group_cons h, List.cons_append, hops, hops_children_append]

theorem headed_group_append (kind : DependencyKind) (ids : List PackageId) (h : Headed rest) :
    Headed (group kind ids ++ rest) := by
  cases ids with
  | nil => exact h
  | cons id ids =>
    have hc := headed_children_append (id :: ids) h
    cases kind with
    | normal => exact hc
    | other => exact h
    | _ => exact ⟨⟨id, _, _, rfl⟩, hc⟩

theorem map_entry_group (h : kind.group?.isSome) (ids : List PackageId) :
    (group kind ids).map entry =
      (if kind ≠ .normal ∧ ids ≠ [] then [.header kind] else []) ++ ids.map .package := by
  have hn : kind ≠ .normal := by rintro rfl; simp [DependencyKind.group?] at h
  cases ids with
  | nil => simp [group_nil]
  | cons id ids => simp [group_cons h, map_entry_children, entry, hn]

end Branch

namespace DependencyGraph

variable (graph : DependencyGraph) (direction : Direction) (id : PackageId)

theorem branches_eq_groups : graph.branches direction id =
    Branch.children (graph.neighbors id direction .normal) ++
      (Branch.group .build (graph.neighbors id direction .build) ++
      (Branch.group .development (graph.neighbors id direction .development) ++
      (Branch.group .targetSpecific (graph.neighbors id direction .targetSpecific) ++ []))) := by
  simp only [branches, DependencyKind.all, List.flatMap_cons, List.flatMap_nil,
    Branch.group_normal, Branch.group_other, List.append_nil]

theorem map_entry_branches :
    (graph.branches direction id).map Branch.entry = graph.entriesBelow direction id := by
  simp only [branches_eq_groups, entriesBelow, DependencyKind.shown, List.flatMap_cons,
    List.flatMap_nil, List.map_append, List.map_nil, Branch.map_entry_children]
  rw [Branch.map_entry_group rfl, Branch.map_entry_group rfl, Branch.map_entry_group rfl]
  simp

theorem hops_branches : Branch.hops .normal (graph.branches direction id) =
    graph.hops direction id := by
  obtain ⟨k₁, hbuild⟩ := Branch.hops_group_append .build rfl .normal
    (graph.neighbors id direction .build)
    (Branch.group .development (graph.neighbors id direction .development) ++
      (Branch.group .targetSpecific (graph.neighbors id direction .targetSpecific) ++ []))
  obtain ⟨k₂, hdev⟩ := Branch.hops_group_append .development rfl k₁
    (graph.neighbors id direction .development)
    (Branch.group .targetSpecific (graph.neighbors id direction .targetSpecific) ++ [])
  obtain ⟨k₃, htarget⟩ := Branch.hops_group_append .targetSpecific rfl k₂
    (graph.neighbors id direction .targetSpecific) []
  rw [branches_eq_groups, Branch.hops_children_append, hbuild, hdev, htarget]
  simp [hops, DependencyKind.shown, Branch.hops]

theorem headed_branches : Branch.Headed (graph.branches direction id) := by
  rw [branches_eq_groups]
  exact Branch.headed_children_append _ <| Branch.headed_group_append _ _ <|
    Branch.headed_group_append _ _ <| Branch.headed_group_append _ _ trivial

variable {graph direction id} {hop : Hop}

theorem mem_hops : hop ∈ graph.hops direction id ↔
    hop.kind ≠ .other ∧ hop.target ∈ graph.neighbors id direction hop.kind := by
  have hshown : ∀ kind, kind ∈ DependencyKind.shown ↔ kind ≠ .other := by
    intro kind
    cases kind <;> decide
  simp only [hops, List.mem_flatMap, List.mem_map, hshown]
  constructor
  · rintro ⟨kind, hk, target, ht, rfl⟩
    exact ⟨hk, ht⟩
  · rintro ⟨hk, ht⟩
    exact ⟨hop.kind, hk, hop.target, ht, rfl⟩

theorem nodup_hops : (graph.hops direction id).Nodup := by
  refine List.nodup_flatMap.mpr ⟨fun kind _ => ?_, ?_⟩
  · exact nodup_neighbors.map fun p q h => (Hop.mk.inj h).2
  · have hkinds : DependencyKind.shown.Nodup := by decide
    refine hkinds.imp fun {k₁ k₂} hne hop h₁ h₂ => hne ?_
    obtain ⟨_, _, rfl⟩ := List.mem_map.mp h₁
    obtain ⟨_, _, heq⟩ := List.mem_map.mp h₂
    exact (Hop.mk.inj heq).1.symm

end DependencyGraph

end UnsafeAudit
