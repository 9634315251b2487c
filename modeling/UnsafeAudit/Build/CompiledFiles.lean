import UnsafeAudit.Build.Driver
import UnsafeAudit.DepInfo.Files

/-!
# Compiled files

The files of a build are the source roots of its compiler invocations and all
that the dependency listings in its output directories name.
-/

namespace UnsafeAudit

def FileSystem.compiledFiles (fs : FileSystem) (context : BuildContext) (workspaceRoot : Path) :
    Except Failure (List Path) := do
  let listed ← (Path.sort context.outDirs).foldlM (fun files outDir => do
    return (← DepInfo.collect fs outDir workspaceRoot).foldl BuildContext.addPath files) []
  return context.sourceRoots.foldl BuildContext.addPath listed

def BuildDriver.compiledFiles (driver : BuildDriver) (workspaceRoot : Path) : Run (List Path) := do
  let context ← driver.interceptedBuild
  let fs ← Run.files
  let root ← Run.ofExcept ((fs.resolve workspaceRoot).mapError fun e => .fault (.unresolved e))
  Run.ofExcept (fs.compiledFiles context root)

end UnsafeAudit
