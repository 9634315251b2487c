import UnsafeAudit.DepInfo.Basic
import UnsafeAudit.Failure
import UnsafeAudit.FileSystem.Listing
import UnsafeAudit.FileSystem.Resolve

/-!
# Dependency listings in output directories

The compiler leaves its listings below the output directories of a build. This
module finds them, reads them and makes the paths that they name canonical;
relative ones are relative to the workspace. A directory that cannot be read is
a failure of the walk. An entry that leads nowhere is passed over, unless the
file system refuses to look at it because a name is too long. No file system is
asked for a path with the null character.
-/

namespace UnsafeAudit.DepInfo

def suffix : String := ".d"

def find (fs : FileSystem) (outDir : Path) : Except AuditError (List Path) :=
  (fs.filesBelow suffix outDir).mapError fun e => .directoryWalk (Path.ofString e.path) e

def refusal? (fs : FileSystem) : Look → Option Failure
  | .directory path =>
    match fs.stat path with
    | .ok _ => none
    | .error e => some (.audit (.directoryWalk (Path.ofString e.path) e))
  | .entry path =>
    match fs.pathExists path with
    | .ok _ => none
    | .error e => some (.fault (.os e))

/-- The listings at and below an output directory, if nothing ends the walk. -/
def listings (fs : FileSystem) (outDir : Path) : Except Failure (List Path) :=
  if outDir.hasNull then .error (.fault (.unresolved .nullName))
  else do
    let found ← (find fs outDir).mapError .audit
    match (fs.looks outDir).findSome? (refusal? fs) with
    | some failure => .error failure
    | none => return found

def readText (fs : FileSystem) (path : Path) : Except Fault String :=
  match fs.readBytes path with
  | .error e => .error (.os e)
  | .ok bytes =>
    match Text.Utf8.decode bytes with
    | .error m => .error (.undecodable m)
    | .ok chars => .ok (String.ofList (Text.unifyNewlines chars))

def parseFile (fs : FileSystem) (path : Path) : Except AuditError (List Entry) :=
  match readText fs path with
  | .error fault => .error (.dependencyFile fault.message path)
  | .ok text =>
    match parse text with
    | none => .error (.dependencyFile malformedMessage path)
    | some entries => .ok entries

def canonicalize (fs : FileSystem) (dependency : String) (workspaceRoot : Path) :
    Except Failure Path :=
  let path := workspaceRoot.join (Path.ofString dependency)
  match fs.resolveStrict path with
  | .ok result => .ok result
  | .error .nullName => .error (.fault (.unresolved .nullName))
  | .error e => .error (.audit (.pathResolution path e))

def addDependencies (fs : FileSystem) (workspaceRoot : Path) (collected : List Path)
    (dependencies : List String) : Except Failure (List Path) :=
  dependencies.foldlM (fun collected dependency => do
    let path ← canonicalize fs dependency workspaceRoot
    pure (if path ∈ collected then collected else collected ++ [path])) collected

def collect (fs : FileSystem) (outDir workspaceRoot : Path) : Except Failure (List Path) := do
  let files ← listings fs outDir
  files.foldlM (fun collected file => do
    let entries ← (parseFile fs file).mapError .audit
    addDependencies fs workspaceRoot collected (entries.flatMap (·.dependencies))) []

end UnsafeAudit.DepInfo
