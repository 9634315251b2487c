import UnsafeAudit.CommandLine.Request
import UnsafeAudit.Metadata.Package

/-!
# Files that a run reads

Which files a command line may lead the program to: those that it names, the
settings files above the manifest, and the target roots of the packages in a
metadata file that is known already.
-/

namespace UnsafeAudit.CommandLine

def settingsFiles (directory : Path) : List Path :=
  (List.range (directory.parts.length + 1)).flatMap fun depth =>
    Config.fileNames.map (Path.child ⟨directory.anchor, directory.parts.take depth⟩)

def targetRoots (fs : FileSystem) (file : Path) : List Path :=
  match Metadata.ofFile fs file with
  | .error _ => []
  | .ok metadata => metadata.packages.flatMap fun entry =>
    match metadata.package (.str entry.id.reprId) with
    | .ok package => package.targets.map (·.srcPath)
    | .error _ => []

def commandArguments? (texts : List String) : Option Arguments := do
  let program ← (Arguments.read programOptions false texts).toOption
  match program.operands with
  | word :: texts =>
    let name ← CommandName.ofWord? word
    (Arguments.read name.options true texts).toOption
  | [] => none

def namedSettings (texts : List String) : List String :=
  match Arguments.read programOptions false texts with
  | .ok program => program.values "config"
  | .error _ => []

/-- The files that a command line may lead to, as far as the files that are known tell. -/
def reads (fs : FileSystem) (texts : List String) : List Path :=
  let arguments := (commandArguments? texts).getD ⟨[], []⟩
  let manifest := Path.ofString ((arguments.value? "manifest-path").getD "Cargo.toml")
  let metadata := (arguments.values "metadata-file").map Path.ofString
  (namedSettings texts).map Path.ofString ++ [manifest] ++ metadata ++
    settingsFiles ((Path.atRoot fs.cwd).join manifest).parent ++
    metadata.flatMap (targetRoots fs)

def output? (texts : List String) : Option Path := do
  let arguments ← commandArguments? texts
  return Path.ofString (← arguments.value? "output")

end UnsafeAudit.CommandLine
