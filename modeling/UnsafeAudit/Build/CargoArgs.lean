import UnsafeAudit.Config.Basic
import UnsafeAudit.Path.Basic

/-!
# Cargo command lines

The arguments with which cargo is run to read metadata, to clean and to check.
-/

namespace UnsafeAudit.BuildConfig

def flag (name : String) (given : Bool) : List String := if given then [name] else []

/-- An option that is given only with a value that is not empty. -/
def valued (name : String) : Option String → List String
  | none | some "" => []
  | some value => [name, value]

def featureArgs (c : BuildConfig) : List String :=
  if c.features.isEmpty then [] else ["--features", Text.joinWith "," c.features]

def accessArgs (c : BuildConfig) : List String :=
  flag "--offline" c.offline ++ flag "--locked" c.locked ++ flag "--frozen" c.frozen

def commonArgs (c : BuildConfig) (manifest : Path) : List String :=
  ["--manifest-path", manifest.toString] ++ valued "--target" c.target ++ c.accessArgs

def cleanArgs (c : BuildConfig) (manifest : Path) : List String :=
  [c.cargo, "clean"] ++ c.commonArgs manifest

def checkArgs (c : BuildConfig) (manifest : Path) : List String :=
  [c.cargo, "check"] ++ c.commonArgs manifest ++ c.featureArgs
    ++ flag "--all-features" c.allFeatures ++ flag "--no-default-features" c.noDefaultFeatures
    ++ flag "--all-targets" c.allTargets
    ++ (c.jobs.map fun n => ["--jobs", Decimal.intText n]).getD []

def metadataArgs (c : BuildConfig) (manifest : Path) : List String :=
  [c.cargo, "metadata", "--format-version", "1", "--manifest-path", manifest.toString]
    ++ c.featureArgs ++ flag "--all-features" c.allFeatures
    ++ flag "--no-default-features" c.noDefaultFeatures
    ++ valued "--filter-platform" c.target ++ c.accessArgs

end UnsafeAudit.BuildConfig
