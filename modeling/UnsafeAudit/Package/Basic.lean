import UnsafeAudit.Path.Basic
import UnsafeAudit.Text.Quoted

/-!
# Packages

A package has an identity, a manifest and the targets that are built from it.
Each target has a kind, and the kind gives its root file a role. Library,
binary and build script roots are the entry points of a package; the roots of
tests, benches and examples are compiled but promise nothing to its users.
-/

namespace UnsafeAudit

structure PackageId where
  name : String
  version : String
  source : Option String
  /-- The opaque text by which build metadata refers to the package. -/
  reprId : String
  deriving DecidableEq, Repr

namespace PackageId

def toString (id : PackageId) : String := id.name ++ " " ++ id.version

instance : ToString PackageId := ⟨toString⟩

/-- Packages without a source come from a local directory. -/
def isLocal (id : PackageId) : Bool := id.source.isNone

def cratesIoSource : String := "registry+https://github.com/rust-lang/crates.io-index"

def isCratesIo (id : PackageId) : Bool := id.source == some cratesIoSource

end PackageId

inductive TargetKind
  | lib
  | bin
  | test
  | bench
  | exampleLib
  | exampleBin
  | customBuild
  deriving DecidableEq, Repr

namespace TargetKind

def all : List TargetKind := [.lib, .bin, .test, .bench, .exampleLib, .exampleBin, .customBuild]

def word : TargetKind → String
  | .lib => "lib"
  | .bin => "bin"
  | .test => "test"
  | .bench => "bench"
  | .exampleLib => "example-lib"
  | .exampleBin => "example-bin"
  | .customBuild => "custom-build"

def ofWord? (w : String) : Option TargetKind := all.find? (·.word == w)

def libraryKinds : List String := ["lib", "rlib", "dylib", "cdylib", "staticlib", "proc-macro"]

/-- The kind of a target from the kinds and crate types that build metadata lists for it. An
example is a binary only if it has crate types and all of them are `bin`. -/
def ofListed? (kinds crateTypes : List String) : Option TargetKind :=
  if "custom-build" ∈ kinds then some .customBuild
  else if "example" ∈ kinds then
    if crateTypes ≠ [] ∧ ∀ t ∈ crateTypes, t = "bin" then some .exampleBin else some .exampleLib
  else if "bin" ∈ kinds then some .bin
  else if "test" ∈ kinds then some .test
  else if "bench" ∈ kinds then some .bench
  else if libraryKinds.any (· ∈ kinds) then some .lib
  else none

def unknownMessage (kinds : List String) : String :=
  let shown := Text.joinWith ", " (kinds.map Text.quoted)
  s!"Unknown target kind: [{shown}]"

end TargetKind

inductive FileRole
  | libraryRoot
  | binaryRoot
  | buildScriptRoot
  | other
  deriving DecidableEq, Repr

namespace FileRole

def all : List FileRole := [.libraryRoot, .binaryRoot, .buildScriptRoot, .other]

def word : FileRole → String
  | .libraryRoot => "lib_root"
  | .binaryRoot => "bin_root"
  | .buildScriptRoot => "build_script_root"
  | .other => "other"

def ofWord? (w : String) : Option FileRole := all.find? (·.word == w)

def isEntryPoint (role : FileRole) : Bool := role ≠ .other

end FileRole

def TargetKind.role : TargetKind → FileRole
  | .lib => .libraryRoot
  | .bin => .binaryRoot
  | .customBuild => .buildScriptRoot
  | _ => .other

structure Target where
  name : String
  kind : TargetKind
  srcPath : Path
  deriving DecidableEq, Repr

structure Package where
  id : PackageId
  manifestPath : Path
  license : Option String
  repository : Option String
  features : List String
  targets : List Target
  deriving DecidableEq, Repr

def Package.root (package : Package) : Path := package.manifestPath.parent

end UnsafeAudit
