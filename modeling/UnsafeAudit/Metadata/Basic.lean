import UnsafeAudit.DepInfo.Files
import UnsafeAudit.Json.Reader
import UnsafeAudit.Metadata.Reading
import UnsafeAudit.Package.Codec

/-!
# Build metadata

Metadata describes the packages of a build and, as the nodes of its resolve,
what each package depends on. Identities are read at once; all else about a
package or a node is kept as it was written and read on demand.
-/

namespace UnsafeAudit

structure PackageEntry where
  id : PackageId
  description : Json

structure ResolveNode where
  /-- A text, unless the metadata is malformed. -/
  key : Json
  description : Json

structure Metadata where
  workspaceRoot : Path
  targetDirectory : Path
  /-- The package that the resolve starts from. A virtual workspace has none. -/
  root : Json
  /-- By the text of their identity, each once. -/
  packages : List PackageEntry
  /-- By their key, each once. -/
  nodes : List ResolveNode

namespace Metadata

/-- Whether two values look up the same thing. A text is the same as a text only. -/
def sameKey : Json → Json → Bool
  | .str a, .str b => a = b
  | .str _, _ | _, .str _ => false
  | a, b => a.shownKey = b.shownKey

def readPackage (description : Json) : Except Fault PackageEntry := do
  let reprId ← (← description.needed "id").asKey
  let name ← description.needed "name"
  let version ← description.needed "version"
  let source ← description.optional "source" .null
  let id ← (PackageId.ofJson (.obj [("name", name), ("version", version), ("source", source),
    ("repr_id", reprId)])).orFault
  return ⟨id, description⟩

def readNode (description : Json) : Except Fault ResolveNode := do
  return ⟨← (← description.needed "id").asKey, description⟩

/-- The directory to which a build writes: below the workspace, unless it is given. -/
def readTargetDirectory (document : Json) (workspaceRoot : Path) : Except Fault Path := do
  let directory ← document.optional "target_directory" .null
  if directory.isTruthy then directory.asPath else return workspaceRoot.child "target"

def readDocument (document resolve : Json) : Except Fault Metadata := do
  let workspaceRoot ← (← document.optional "workspace_root" (.str ".")).asPath
  let targetDirectory ← readTargetDirectory document workspaceRoot
  let packages ← (← (← document.optional "packages" (.arr [])).parts).mapM readPackage
  let nodes ← (← (← resolve.optional "nodes" (.arr [])).parts).mapM readNode
  return ⟨workspaceRoot, targetDirectory, ← resolve.optional "root" .null,
    Table.ofList (fun a b => a.id.reprId = b.id.reprId) packages,
    Table.ofList (fun a b => sameKey a.key b.key) nodes⟩

def ofJson (document : Json) : Except Failure Metadata := do
  match ← (document.optional "resolve" .null).mapError Failure.fault with
  | resolve@(.obj _) => (readDocument document resolve).mapError .fault
  | _ => .error (.audit (.metadata .noResolve))

def textFailure : Failure → Failure
  | .fault (.missingKey shown) => .audit (.metadata (.missingKey shown))
  | .fault .wrongType => .audit (.metadata .illTyped)
  | failure => failure

def ofText (text : String) : Except Failure Metadata :=
  match Json.read? text with
  | none => .error (.audit (.metadata .unparsable))
  | some document => (ofJson document).mapError textFailure

def ofFile (fs : FileSystem) (path : Path) : Except Failure Metadata :=
  match DepInfo.readText fs path with
  | .error (.os e) => .error (.audit (.metadata (.unreadable path e)))
  | .error fault => .error (.fault fault)
  | .ok text => ofText text

def entry? (metadata : Metadata) (key : Json) : Option PackageEntry :=
  metadata.packages.find? fun e => sameKey (.str e.id.reprId) key

def packageId (metadata : Metadata) (key : Json) : Except Failure PackageId := do
  let key ← key.asKey.mapError .fault
  match metadata.entry? key with
  | some entry => return entry.id
  | none => .error (.audit (.metadata (.unknownId key.shownKey)))

def answersTo (name version : String) (id : PackageId) : Bool :=
  id.name = name && (version.isEmpty || id.version = version)

/-- A specification is a name, or a name and a version with `@` between them. -/
def splitSpec (spec : String) : String × String :=
  let chars := spec.toList
  let name := chars.takeWhile (· ≠ '@')
  (String.ofList name, String.ofList ((chars.drop name.length).drop 1))

/-- The package that a specification picks, or the one that the resolve starts from. -/
def findRoot (metadata : Metadata) : Option String → Except Failure PackageId
  | none =>
    match metadata.root with
    | .null => .error (.audit (.metadata .virtualWorkspace))
    | root => metadata.packageId root
  | some spec =>
    let (name, version) := splitSpec spec
    match (metadata.packages.map (·.id)).filter (answersTo name version) with
    | [] => .error (.audit (.metadata (.notFound spec)))
    | [id] => .ok id
    | candidates => .error (.audit (.metadata (.ambiguous spec candidates)))

end Metadata

end UnsafeAudit
