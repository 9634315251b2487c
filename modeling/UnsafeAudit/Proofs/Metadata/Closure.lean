import UnsafeAudit.Proofs.Loops
import UnsafeAudit.Proofs.Metadata.Assembly
import UnsafeAudit.Proofs.Search.BreadthFirst

/-!
# Graphs from whatever metadata

Metadata need not be well-typed for a graph to be loaded from it: only what is
looked up must be there. A graph that was loaded holds what its root leads to,
each package as metadata describes it (`drawn_of_buildGraph_ok`). So two graphs
of one root agree on the packages they share, and the one that includes more
kinds of dependencies has all packages of the other (`Drawn.subset`).
-/

namespace UnsafeAudit

namespace Checked

theorem of_toExcept_ok {c : Checked α} (h : c.toExcept = .ok a) : c = .ok a := by
  cases c with
  | ok b => cases h; rfl
  | bad issues => cases h

theorem of_seq_ok {f : Checked (α → β)} {c : Checked α} (h : f <*> c = .ok b) :
    ∃ g a, f = .ok g ∧ c = .ok a ∧ g a = b := by
  cases f <;> cases c <;> cases h
  exact ⟨_, _, rfl, rfl, rfl⟩

theorem of_map_ok {g : α → β} {c : Checked α} (h : g <$> c = .ok b) :
    ∃ a, c = .ok a ∧ g a = b := by
  cases c <;> cases h
  exact ⟨_, rfl, rfl⟩

end Checked

namespace Metadata

variable {metadata : Metadata} {config fewer more : GraphConfig} {root start p target : PackageId}
  {package other : Package} {packages new : List Package} {done pending order : List PackageId}
  {dependencies : List Dependency} {key : Json}

-- ---------------------------------------------------------------------------
-- Looking up
-- ---------------------------------------------------------------------------

theorem sameKey_str_iff {id : String} : sameKey (.str id) key = true ↔ key = .str id := by
  cases key <;> simp [sameKey, eq_comm]

theorem exists_entry_of_package_ok (h : metadata.package key = .ok package) :
    ∃ entry, entry? metadata key = some entry ∧ entry.id = package.id := by
  unfold Metadata.package at h
  cases hentry : entry? metadata key with
  | none =>
    rw [hentry] at h
    cases h
  | some entry =>
    rw [hentry] at h
    -- everything is read before the details are put together
    iterate 9 obtain ⟨_, -, h⟩ := of_bind_ok h
    obtain ⟨_, _, hwithRepository, -, rfl⟩ :=
      Checked.of_seq_ok (Checked.of_toExcept_ok (of_mapError_ok h))
    obtain ⟨_, _, hwithLicense, -, rfl⟩ := Checked.of_seq_ok hwithRepository
    obtain ⟨_, -, rfl⟩ := Checked.of_map_ok hwithLicense
    exact ⟨entry, rfl, rfl⟩

theorem key_eq_of_listed {entry : PackageEntry} (h : entry? metadata key = some entry) :
    key = .str entry.id.reprId := by
  have hsame : sameKey (.str entry.id.reprId) key = true := by
    rw [ entry?] at h
    simpa using List.find?_some h
  exact sameKey_str_iff.mp hsame

theorem mem_of_package_ok (h : metadata.package key = .ok package) :
    package.id ∈ metadata.packages.map (·.id) := by
  obtain ⟨entry, hentry, hid⟩ := exists_entry_of_package_ok h
  exact hid ▸ List.mem_map_of_mem (List.mem_of_find?_eq_some hentry)

theorem reprId_of_package_ok {id : String} (h : metadata.package (.str id) = .ok package) :
    package.id.reprId = id := by
  obtain ⟨entry, hentry, hid⟩ := exists_entry_of_package_ok h
  rw [← hid]
  exact (Json.str.inj (key_eq_of_listed hentry)).symm

theorem id_eq_of_packageId_ok (hp : metadata.packageId key = .ok p)
    (h : metadata.package (.str p.reprId) = .ok package) : package.id = p := by
  obtain ⟨entry, hentry, hid⟩ := exists_entry_of_package_ok h
  obtain ⟨key, -, hp⟩ := of_bind_ok hp
  cases hlisted : entry? metadata key with
  | none =>
    rw [hlisted] at hp
    cases hp
  | some listed =>
    rw [hlisted] at hp
    cases hp
    rw [← key_eq_of_listed hlisted, hlisted] at hentry
    cases hentry
    exact hid.symm

-- ---------------------------------------------------------------------------
-- The search
-- ---------------------------------------------------------------------------

def listedTargets (metadata : Metadata) (dependencies : List Dependency) : List PackageId :=
  dependencies.filterMap fun dependency => (metadata.packageId dependency.target).toOption

/-- What the included dependencies of a package refer to. Of a package whose dependencies cannot be
read nothing is known. -/
def targetIds (metadata : Metadata) (config : GraphConfig) (id : PackageId) : List PackageId :=
  match metadata.dependencies config (.str id.reprId) with
  | .ok dependencies => metadata.listedTargets dependencies
  | .error _ => []

def Describes (metadata : Metadata) (packages : List Package) : Prop :=
  ∀ package ∈ packages, metadata.package (.str package.id.reprId) = .ok package

theorem of_discover_ok {found found' : Discovered} {pending' : List PackageId} {dependency}
    (h : discover metadata (found, pending) dependency = .ok (found', pending')) :
    ∃ id, metadata.packageId dependency.target = .ok id ∧
      (id ∈ found.packages.map (·.id) ∧ found' = found ∧ pending' = pending ∨
        id ∉ found.packages.map (·.id) ∧ ∃ package, package.id = id ∧
          metadata.package (.str package.id.reprId) = .ok package ∧
          found' = { found with packages := found.packages ++ [package] } ∧
          pending' = pending ++ [id]) := by
  obtain ⟨id, hid, h⟩ := of_bind_ok h
  have hknown : found.packages.any (fun p => decide (p.id = id)) = true ↔
      id ∈ found.packages.map (·.id) := by simp
  refine ⟨id, hid, ?_⟩
  by_cases hmem : id ∈ found.packages.map (·.id)
  · rw [if_pos (hknown.mpr hmem)] at h
    cases h
    exact .inl ⟨hmem, rfl, rfl⟩
  · rw [if_neg (mt hknown.mp hmem)] at h
    obtain ⟨package, hpackage, h⟩ := of_bind_ok h
    replace hpackage := of_mapError_ok hpackage
    have heq := id_eq_of_packageId_ok hid hpackage
    cases h
    exact .inr ⟨hmem, package, heq, by rwa [heq], rfl, rfl⟩

/-- Dependencies are discovered one by one, and what is new of what they refer to is queued. -/
theorem of_foldlM_discover_ok {found found' : Discovered} {pending' : List PackageId}
    (h : dependencies.foldlM (discover metadata) (found, pending) = .ok (found', pending')) :
    ∃ new, found'.packages = found.packages ++ new ∧ pending' = pending ++ new.map (·.id) ∧
      metadata.Describes new ∧
      new.map (·.id) = ((metadata.listedTargets dependencies).filter
        (· ∉ found.packages.map (·.id))).eraseDups := by
  induction dependencies generalizing found pending with
  | nil =>
    cases h
    exact ⟨[], by simp, by simp, nofun, rfl⟩
  | cons dependency rest ih =>
    rw [List.foldlM_cons] at h
    obtain ⟨⟨between, queued⟩, hstep, hrest⟩ := of_bind_ok h
    obtain ⟨new, hpackages, hpending, hdescribes, hnew⟩ := ih hrest
    obtain ⟨id, hid, hcases⟩ := of_discover_ok hstep
    have htargets : metadata.listedTargets (dependency :: rest) =
        id :: metadata.listedTargets rest := by
      rw [listedTargets, List.filterMap_cons, hid]
      rfl
    rw [htargets, eraseDups_filter_cons]
    rcases hcases with ⟨hknown, rfl, rfl⟩ | ⟨hnew', package, rfl, hpackage, rfl, rfl⟩
    · exact ⟨new, hpackages, hpending, hdescribes, by rw [if_pos hknown, hnew]⟩
    · refine ⟨package :: new, by simpa using hpackages, by simpa using hpending,
        List.forall_mem_cons.mpr ⟨hpackage, hdescribes⟩, ?_⟩
      rw [if_neg hnew', List.map_cons, hnew, List.map_append, List.map_singleton]

/-- What a search keeps from step to step: it has expanded the packages of `done`, whose
dependencies could be read, and has queued those of `pending`. -/
structure Exploring (metadata : Metadata) (config : GraphConfig) (start : PackageId)
    (done pending : List PackageId) (packages : List Package) : Prop where
  frontier : Frontier (metadata.targetIds config) start done pending
  ids_eq : packages.map (·.id) = done ++ pending
  describes : metadata.Describes packages
  readable : ∀ id ∈ done, ∃ dependencies,
    metadata.dependencies config (.str id.reprId) = .ok dependencies

theorem Exploring.step
    (h : Exploring metadata config start done (p :: pending) packages)
    (hread : metadata.dependencies config (.str p.reprId) = .ok dependencies)
    (hdescribes : metadata.Describes new)
    (hnew : new.map (·.id) = ((metadata.listedTargets dependencies).filter
      (· ∉ packages.map (·.id))).eraseDups) :
    Exploring metadata config start (done ++ [p]) (pending ++ new.map (·.id))
      (packages ++ new) where
  frontier := by
    have htargets : metadata.targetIds config p = metadata.listedTargets dependencies := by
      rw [targetIds, hread]
    rw [hnew, h.ids_eq, ← htargets]
    exact h.frontier.step
  ids_eq := by rw [List.map_append, h.ids_eq]; simp
  describes package hp := (List.mem_append.mp hp).elim (h.describes package) (hdescribes package)
  readable id hid := by
    rcases List.mem_append.mp hid with hid | hid
    · exact h.readable id hid
    · rw [List.mem_singleton.mp hid]
      exact ⟨dependencies, hread⟩

theorem Exploring.mem_listed (h : Exploring metadata config start done pending packages) :
    ∀ id ∈ done ++ pending, id ∈ metadata.packages.map (·.id) := by
  rw [← h.ids_eq]
  intro id hid
  obtain ⟨package, hp, rfl⟩ := List.mem_map.mp hid
  exact mem_of_package_ok (h.describes package hp)

theorem of_expand_ok {steps : Nat} {found found' : Discovered}
    (h : metadata.expand config steps found pending = .ok found')
    (hs : Exploring metadata config start done pending found.packages)
    (hlen : metadata.packages.length ≤ done.length + steps) :
    ∃ order, Exploring metadata config start order [] found'.packages := by
  induction steps generalizing done pending found with
  | zero =>
    cases h
    -- as many packages were expanded as are listed, so none can be pending
    have hnil := hs.frontier.pending_eq_nil hs.mem_listed (by simpa using hlen)
    exact ⟨done, hnil ▸ hs⟩
  | succ steps ih =>
    cases pending with
    | nil =>
      cases h
      exact ⟨done, hs⟩
    | cons p pending =>
      rw [expand] at h
      obtain ⟨dependencies, hread, h⟩ := of_bind_ok h
      obtain ⟨⟨between, queued⟩, hfold, h⟩ := of_bind_ok h
      obtain ⟨targets, -, h⟩ := of_bind_ok h
      obtain ⟨new, hpackages, rfl, hdescribes, hnew⟩ := of_foldlM_discover_ok hfold
      have hstep := hs.step (of_mapError_ok hread) hdescribes hnew
      rw [← hpackages] at hstep
      refine ih h hstep ?_
      rw [List.length_append, List.length_singleton]
      omega

-- ---------------------------------------------------------------------------
-- The graph
-- ---------------------------------------------------------------------------

/-- A graph holds what a root leads to, in breadth-first order, and each package is there as
metadata describes it. -/
structure Drawn (metadata : Metadata) (config : GraphConfig) (root : PackageId)
    (graph : DependencyGraph) : Prop where
  start : ∃ package, metadata.package (.str root.reprId) = .ok package ∧
    BreadthFirst (metadata.targetIds config) package.id (graph.packages.map (·.id))
  describes : metadata.Describes graph.packages
  readable : ∀ package ∈ graph.packages, ∃ dependencies,
    metadata.dependencies config (.str package.id.reprId) = .ok dependencies

theorem drawn_of_buildGraph_ok {graph : DependencyGraph} (hforward : config.invert = false)
    (h : metadata.buildGraph config root = .ok graph) : Drawn metadata config root graph := by
  rw [buildGraph, if_neg (by simp [hforward])] at h
  obtain ⟨first, hfirst, h⟩ := of_bind_ok h
  obtain ⟨found, hfound, h⟩ := of_bind_ok h
  cases h
  replace hfirst := of_mapError_ok hfirst
  have hinit : Exploring metadata config first.id [] [first.id] [first] := by
    refine ⟨Frontier.init, rfl, List.forall_mem_singleton.mpr ?_, nofun⟩
    rw [reprId_of_package_ok hfirst]
    exact hfirst
  obtain ⟨order, hend⟩ := of_expand_ok hfound hinit (by simp)
  have hids : found.packages.map (·.id) = order := by simpa using hend.ids_eq
  have horder := hend.frontier.breadthFirst
  rw [graphOf_eq (hids ▸ horder.nodup)]
  refine ⟨⟨first, hfirst, hids ▸ horder⟩, hend.describes, fun package hp => ?_⟩
  exact hend.readable package.id (hids ▸ List.mem_map_of_mem hp)

namespace Drawn

variable {graph graph' few many : DependencyGraph}

theorem nodup_ids (h : Drawn metadata config root graph) : (graph.packages.map (·.id)).Nodup := by
  obtain ⟨_, -, horder⟩ := h.start
  exact horder.nodup

theorem eq_of_id_eq (h : Drawn metadata fewer root graph) (h' : Drawn metadata more root graph')
    (hp : package ∈ graph.packages) (hq : other ∈ graph'.packages) (hid : package.id = other.id) :
    package = other := by
  have hread := h.describes package hp
  rw [hid, h'.describes other hq] at hread
  exact (Except.ok.inj hread).symm

end Drawn

-- ---------------------------------------------------------------------------
-- More kinds of dependencies
-- ---------------------------------------------------------------------------

def readIncluded (config : GraphConfig) (dependency : Json) : Except Fault (Option Dependency) := do
  let kinds := (← dependencyKinds dependency).filter config.includes
  if kinds.isEmpty then return none else return some ⟨← dependency.needed "pkg", kinds⟩

/-- What a dependency that is read as included refers to is read alike with more kinds. -/
theorem readIncluded_mono {dependency : Json} {d : Dependency} {d? : Option Dependency}
    (hkinds : ∀ kind, fewer.includes kind → more.includes kind)
    (hfewer : readIncluded fewer dependency = .ok (some d))
    (hmore : readIncluded more dependency = .ok d?) : ∃ d', d? = some d' ∧ d'.target = d.target := by
  rw [readIncluded] at hfewer hmore
  cases hread : dependencyKinds dependency with
  | error e =>
    rw [hread] at hfewer
    cases hfewer
  | ok kinds =>
    rw [hread] at hfewer hmore
    change (if (kinds.filter fewer.includes).isEmpty = true then _ else _) = _ at hfewer
    change (if (kinds.filter more.includes).isEmpty = true then _ else _) = _ at hmore
    split at hfewer
    · cases hfewer
    · rename_i hsome
      have hsome' : ¬ (kinds.filter more.includes).isEmpty = true := by
        rw [List.isEmpty_iff, List.filter_eq_nil_iff] at hsome ⊢
        exact fun hnone => hsome fun kind hkind => mt (hkinds kind) (hnone kind hkind)
      rw [if_neg hsome'] at hmore
      obtain ⟨target, htarget, h⟩ := of_bind_ok hfewer
      cases h
      obtain ⟨target', htarget', h⟩ := of_bind_ok hmore
      cases h
      rw [htarget] at htarget'
      cases htarget'
      exact ⟨_, rfl, rfl⟩

theorem listedTargets_subset {few many : List Dependency} 
    (hkinds : ∀ kind, fewer.includes kind → more.includes kind)
    (hfew : metadata.dependencies fewer key = .ok few)
    (hmany : metadata.dependencies more key = .ok many) :
    metadata.listedTargets few ⊆ metadata.listedTargets many := by
  obtain ⟨declared, hdeclared, hfew⟩ := of_bind_ok hfew
  obtain ⟨items, hitems, hfew⟩ := of_bind_ok hfew
  rw [dependencies, hdeclared] at hmany
  change (declared.parts >>= _) = _ at hmany
  rw [hitems] at hmany
  replace hfew : items.filterMapM (readIncluded fewer) = .ok few := hfew
  replace hmany : items.filterMapM (readIncluded more) = .ok many := hmany
  intro target ht
  obtain ⟨d, hd, htarget⟩ := List.mem_filterMap.mp ht
  obtain ⟨item, hitem, hread⟩ := (mem_of_filterMapM_ok hfew).mp hd
  obtain ⟨d?, hread'⟩ := of_filterMapM_ok hmany item hitem
  obtain ⟨d', rfl, heq⟩ := readIncluded_mono hkinds hread hread'
  refine List.mem_filterMap.mpr ⟨d', (mem_of_filterMapM_ok hmany).mpr ⟨item, hitem, hread'⟩, ?_⟩
  rw [heq]
  exact htarget

theorem Drawn.subset {few many : DependencyGraph} (hfew : Drawn metadata fewer root few)
    (hmany : Drawn metadata more root many)
    (hkinds : ∀ kind, fewer.includes kind → more.includes kind) :
    few.packages ⊆ many.packages := by
  obtain ⟨first, hfirst, horder⟩ := hfew.start
  obtain ⟨first', hfirst', horder'⟩ := hmany.start
  obtain rfl : first = first' := Except.ok.inj (hfirst.symm.trans hfirst')
  have hids : ∀ id, Reachable (metadata.targetIds fewer) first.id id →
      id ∈ many.packages.map (·.id) := by
    intro id hid
    -- the reach is that of the smaller graph, its packages are found in the larger one
    induction hid with
    | refl => exact (horder'.mem_iff _).mpr .refl
    | @tail id target _ hnext ih =>
      obtain ⟨package, hp, rfl⟩ := List.mem_map.mp ih
      obtain ⟨dependencies, hread⟩ := hmany.readable package hp
      refine (horder'.mem_iff _).mpr (((horder'.mem_iff _).mp ih).tail ?_)
      rw [targetIds] at hnext ⊢
      rw [hread]
      cases hfewer : metadata.dependencies fewer (.str package.id.reprId) with
      | error e =>
        rw [hfewer] at hnext
        cases hnext
      | ok few =>
        rw [hfewer] at hnext
        exact listedTargets_subset hkinds hfewer hread hnext
  intro package hp
  obtain ⟨other, hq, hid⟩ :=
    List.mem_map.mp (hids package.id ((horder.mem_iff _).mp (List.mem_map_of_mem hp)))
  exact hmany.eq_of_id_eq hfew hq hp hid ▸ hq

end Metadata

end UnsafeAudit
