import Std.Time.DateTime.Timestamp
import UnsafeAudit.CommandLine.Program
import UnsafeAudit.CommandLine.Reads

/-!
# The executable

Reads the files that a command line leads to, runs the program on them, and
prints or writes its answer. It starts no other program, so an audit needs saved
metadata and checks entry points only.
-/

namespace UnsafeAudit.Main

def load (fs : FileSystem) (paths : List Path) : IO FileSystem :=
  paths.foldlM (fun fs path => do
    match ← (IO.FS.readBinFile path.toString).toBaseIO with
    | .ok bytes =>
      return (((fs.makeDirs path.parent).writeBytes path bytes.toList).toOption).getD fs
    | .error _ => return fs) fs

def now : IO Timestamp := do
  let t ← Std.Time.Timestamp.now
  match Timestamp.ofUnix? t.toSecondsSinceUnixEpoch.val with
  | some t => return { t with offset := none }
  | none => return ⟨1970, 1, 1, 0, 0, 0, 0, none⟩

def save (fs : FileSystem) (path : Path) : IO Unit :=
  match fs.readBytes path with
  | .ok bytes => IO.FS.writeBinFile path.toString (ByteArray.mk bytes.toArray)
  | .error _ => pure ()

def noCargo : Cargo := fun fs _ _ => .ok (fs, .notFound)

def run (texts : List String) : IO UInt32 := do
  let start ← IO.monoMsNow
  let cwd ← IO.currentDir
  let fs : FileSystem := ⟨.nil, Path.componentsOf cwd.toString⟩
  let fs := fs.makeDirs (Path.atRoot fs.cwd)
  let fs ← load fs (CommandLine.reads fs texts)
  let fs ← load fs (CommandLine.reads fs texts)
  let fs := ((CommandLine.output? texts).map fun path => fs.makeDirs path.parent).getD fs
  let elapsed := (← IO.monoMsNow) - start
  let clock : Clock := ⟨← now, Binary64.ofInt elapsed⟩
  let (result, session) := (CommandLine.run clock noCargo texts).run (Session.ofFiles fs)
  match result with
  | .ok answer =>
    if let some path := CommandLine.output? texts then save session.files path
    IO.print answer
    return 0
  | .error stop =>
    IO.eprintln s!"Error: {stop.message}"
    return stop.exitCode.toUInt32

end UnsafeAudit.Main

def main (texts : List String) : IO UInt32 := UnsafeAudit.Main.run texts
