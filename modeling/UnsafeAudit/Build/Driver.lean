import UnsafeAudit.Build.CargoArgs
import UnsafeAudit.Build.Script
import UnsafeAudit.Build.Session
import UnsafeAudit.Build.Spool

/-!
# Build drivers

A build driver cleans a workspace and builds it. The one for cargo builds with a
compiler wrapper that spools records, and delivers the recorded invocations.
-/

namespace UnsafeAudit

structure BuildDriver where
  clean : Run Unit
  build : Run BuildScript

namespace BuildDriver

def runCargo (cargo : Cargo) (spool : Option Path) (args : List String) : Run Unit := do
  match ← Run.program cargo spool args with
  | .notFound =>
    let program := args.headD ""
    Run.fail (.audit (.buildFailed s!"Cargo executable not found: {program}" ""))
  | .exited 0 _ _ => pure ()
  | .exited _ _ diagnostics =>
    let command := Text.joinWith " " (args.take 2)
    Run.fail (.audit (.buildFailed s!"'{command}' failed" diagnostics))

def spool : Path := Path.atRoot ["tmp", "crate-safety-audit-spool", "records"]

def ofCargo (cargo : Cargo) (config : BuildConfig) (manifest : Path) : BuildDriver where
  clean := runCargo cargo none (config.cleanArgs manifest)
  build := do
    modify fun s => { s with files := s.files.makeDirs spool }
    runCargo cargo (some spool) (config.checkArgs manifest)
    let invocations ← Run.ofExcept (Spool.read (← Run.files) spool)
    return ⟨invocations.map fun inv => .deliver (.invocation inv) false, none⟩

def dropSpool : Run Unit :=
  modify fun s => { s with files := s.files.update spool.parent.parts fun _ => none }

def interceptedBuild (driver : BuildDriver) : Run BuildContext := do
  driver.clean
  let script ← tryCatch driver.build fun failure => pure ⟨[], some failure⟩
  dropSpool
  Run.ofExcept script.context

end BuildDriver

end UnsafeAudit
