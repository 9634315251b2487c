import UnsafeAudit.Config.Basic
import UnsafeAudit.Graph.Basic
import UnsafeAudit.Metadata.Package

/-!
# Loading graphs from metadata

A graph holds a root and all that it depends on or, inverted, all that depends
on it, in breadth-first order. Dependencies of excluded kinds are not
followed. A graph has every included dependency between its packages.
-/

namespace UnsafeAudit.Metadata

structure Dependency where
  target : Json
  kinds : List DependencyKind

/-- The kind of a dependency. One without a word is specific to a target if it has one. -/
def dependencyKind (kind target : Json) : DependencyKind :=
  match kind with
  | .null => if target.isTruthy then .targetSpecific else .normal
  | .str "build" => .build
  | .str "dev" => .development
  | _ => .other

/-- The kinds in which a dependency is declared, each once. Without a declaration it is normal. -/
def dependencyKinds (dependency : Json) : Except Fault (List DependencyKind) := do
  let declared ← dependency.optional "dep_kinds" .null
  if !declared.isTruthy then return [.normal]
  let kinds ← (← declared.parts).mapM fun entry => do
    return dependencyKind (← entry.optional "kind" .null) (← entry.optional "target" .null)
  return kinds.eraseDups

def dependencies (metadata : Metadata) (config : GraphConfig) (key : Json) :
    Except Fault (List Dependency) := do
  let declared ← (← (metadata.nodeOf key).optional "deps" (.arr [])).parts
  declared.filterMapM fun dependency => do
    let kinds := (← dependencyKinds dependency).filter config.includes
    if kinds.isEmpty then return none else return some ⟨← dependency.needed "pkg", kinds⟩

-- ---- forward

/-- A graph under construction: packages in the order of discovery, with the dependencies of
those that were expanded. -/
structure Discovered where
  packages : List Package
  expanded : List (PackageId × List (PackageId × List DependencyKind))

/-- Adds what a dependency refers to if it is new, to the packages and to those `pending`. -/
def discover (metadata : Metadata) (found : Discovered × List PackageId)
    (dependency : Dependency) : Except Failure (Discovered × List PackageId) := do
  let (found, pending) := found
  let id ← metadata.packageId dependency.target
  if found.packages.any (·.id = id) then return (found, pending)
  let package ← (metadata.package (.str id.reprId)).mapError .fault
  return ({ found with packages := found.packages ++ [package] }, pending ++ [id])

/-- Expands the pending packages breadth-first, `steps` of them at most. -/
def expand (metadata : Metadata) (config : GraphConfig) (steps : Nat) (found : Discovered)
    (pending : List PackageId) : Except Failure Discovered :=
  match steps, pending with
  | 0, _ | _, [] => .ok found
  | steps + 1, id :: pending => do
    let dependencies ←
      (metadata.dependencies config (.str id.reprId)).mapError Failure.fault
    let (found, pending) ← dependencies.foldlM (discover metadata) (found, pending)
    let targets ← dependencies.mapM fun d => do
      return (← metadata.packageId d.target, d.kinds)
    expand metadata config steps
      { found with expanded := found.expanded ++ [(id, targets)] } pending

def edgesOf (source : PackageId) (targets : List (PackageId × List DependencyKind)) : List Edge :=
  targets.flatMap fun (target, kinds) => kinds.map fun kind => ⟨source, target, kind⟩

/-- The graph of some packages with those of the given edges that have both ends among them. -/
def graphOf (packages : List Package) (edges : List Edge) : DependencyGraph :=
  edges.foldl (fun graph edge => ((graph.addEdge edge).toOption).getD graph)
    (packages.foldl .addPackage .empty)

/-- The graph of all that a root depends on. A package is expanded once, so there are no more
steps than packages. -/
def forwardGraph (metadata : Metadata) (config : GraphConfig) (root : PackageId) :
    Except Failure DependencyGraph := do
  let package ← (metadata.package (.str root.reprId)).mapError Failure.fault
  let found ← metadata.expand config metadata.packages.length ⟨[package], []⟩ [package.id]
  return graphOf found.packages (found.expanded.flatMap fun (id, targets) => edgesOf id targets)

-- ---- inverted

/-- Pairs of what is depended on and what depends on it, in the order of the nodes. -/
def dependentPairs (metadata : Metadata) (config : GraphConfig) :
    Except Fault (List (Json × Json)) := do
  let pairs ← metadata.nodes.mapM fun node => do
    (← metadata.dependencies config node.key).mapM fun dependency => do
      return (← dependency.target.asKey, node.key)
  return pairs.flatten

def dependentsFrom (pairs : List (Json × Json)) (steps : Nat) (seen pending : List Json) :
    List Json :=
  match steps, pending with
  | 0, _ | _, [] => seen
  | steps + 1, key :: pending =>
    let parents := (pairs.filter fun (dependency, _) => sameKey dependency key).map (·.2)
    let (seen, pending) := parents.foldl (fun (seen, pending) parent =>
      if seen.any (sameKey parent) then (seen, pending)
      else (seen ++ [parent], pending ++ [parent])) (seen, pending)
    dependentsFrom pairs steps seen pending

/-- A root and everything that depends on it, breadth-first. Only nodes depend on something. -/
def dependents (metadata : Metadata) (config : GraphConfig) (root : PackageId) :
    Except Fault (List Json) := do
  let pairs ← metadata.dependentPairs config
  return dependentsFrom pairs (metadata.nodes.length + 1) [.str root.reprId] [.str root.reprId]

def invertedGraph (metadata : Metadata) (config : GraphConfig) (root : PackageId) :
    Except Failure DependencyGraph := do
  let members ← (metadata.dependents config root).mapError Failure.fault
  let packages ← members.mapM fun key => (metadata.package key).mapError Failure.fault
  let edges ← packages.mapM fun package => do
    let dependencies ←
      (metadata.dependencies config (.str package.id.reprId)).mapError Failure.fault
    let targets ← dependencies.mapM fun d => do
      return (← metadata.packageId d.target, d.kinds)
    return edgesOf package.id targets
  return graphOf packages edges.flatten

def buildGraph (metadata : Metadata) (config : GraphConfig) (root : PackageId) :
    Except Failure DependencyGraph :=
  if config.invert then metadata.invertedGraph config root
  else metadata.forwardGraph config root

end UnsafeAudit.Metadata
