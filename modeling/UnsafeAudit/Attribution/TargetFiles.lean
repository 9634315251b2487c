import UnsafeAudit.FileSystem.Resolve
import UnsafeAudit.Verdict.Basic

/-!
# Target roots

The root files of a package's targets, by canonical path. A file that is the
root of several targets has the role of the first entry point among them.
-/

namespace UnsafeAudit

/-- Adds a root. A known one takes the new role only if it was no entry point before. -/
def addRoot (file : SourceFile) : List SourceFile → List SourceFile
  | [] => [file]
  | f :: rest =>
    if f.path = file.path then (if f.role.isEntryPoint then f else file) :: rest
    else f :: addRoot file rest

/-- The roots of a package's targets. Given the files of a build, only those among them. -/
def FileSystem.targetFiles (fs : FileSystem) (package : Package) (compiled : Option (List Path)) :
    Except ResolveError (List SourceFile) :=
  package.targets.foldlM (fun files target => do
    let path ← fs.canonical target.srcPath
    if compiled.all (·.contains path) then return addRoot ⟨path, target.kind.role⟩ files
    else return files) []

end UnsafeAudit
