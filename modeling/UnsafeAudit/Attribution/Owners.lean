import UnsafeAudit.FileSystem.Resolve
import UnsafeAudit.Package.Basic

/-!
# File owners

A file belongs to the package whose directory is its longest prefix, the first
of those in package order. What lies in the target directory is generated by the
build and belongs to nobody.
-/

namespace UnsafeAudit

structure Ownership where
  generated : Option Path
  /-- Canonical package directories, those with more components first. -/
  roots : List (Path × PackageId)
  deriving DecidableEq, Repr

namespace Ownership

def depthGE (a b : Path × PackageId) : Bool := b.1.components.length ≤ a.1.components.length

def ofPackages (fs : FileSystem) (packages : List Package) (targetDirectory : Option Path) :
    Except ResolveError Ownership := do
  let generated ← targetDirectory.mapM fs.canonical
  let roots ← packages.mapM fun package => do return (← fs.canonical package.root, package.id)
  return ⟨generated, roots.mergeSort depthGE⟩

def isGenerated (owners : Ownership) (file : Path) : Bool := owners.generated.any file.isBelow

def owner? (owners : Ownership) (file : Path) : Option PackageId :=
  if owners.isGenerated file then none
  else (owners.roots.find? fun (root, _) => file.isBelow root).map (·.2)

/-- The files among some that belong to a package, in path order. -/
def filesOf (owners : Ownership) (files : List Path) (id : PackageId) : List Path :=
  (Path.sort files).filter fun file => owners.owner? file = some id

end Ownership

end UnsafeAudit
