import UnsafeAudit.Build.CargoArgs
import UnsafeAudit.Build.Session
import UnsafeAudit.Metadata.Basic

/-!
# Metadata from cargo
-/

namespace UnsafeAudit.Metadata

def ofCargo (cargo : Cargo) (config : BuildConfig) (manifest : Path) : Run Metadata := do
  match ← Run.program cargo none (config.metadataArgs manifest) with
  | .notFound => Run.fail (.audit (.metadata (.cargoMissing config.cargo)))
  | .exited 0 output _ => Run.ofExcept (ofText output)
  | .exited _ _ diagnostics => Run.fail (.audit (.metadata (.cargoFailed diagnostics)))

end UnsafeAudit.Metadata
