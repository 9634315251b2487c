import UnsafeAudit.Failure
import UnsafeAudit.FileSystem.Basic
import UnsafeAudit.Source.Scan

/-!
# Scanning files

A scanner remembers what it found in a file, since several targets can share
one. It does not remember failures.
-/

namespace UnsafeAudit

/-- Scans a file. A tree is walked however deep it is; that a run time with a stack of its own gives
up on a deep one is outside of this. -/
def FileSystem.scanFile [Rust.Parser] (fs : FileSystem) (includeTests : Bool) (path : Path) :
    Except AuditError FileUsage := do
  let bytes ← (fs.readBytes path).mapError fun e => .scan path e.message
  let source ← (Text.Utf8.decode bytes).mapError fun e => .scan path e.message
  return FileUsage.ofSource includeTests source

structure Scanner where
  includeTests : Bool
  known : List (Path × FileUsage)

namespace Scanner

def new (includeTests : Bool) : Scanner := ⟨includeTests, []⟩

def scan [Rust.Parser] (scanner : Scanner) (fs : FileSystem) (path : Path) :
    Scanner × Except AuditError FileUsage :=
  match scanner.known.lookup path with
  | some usage => (scanner, .ok usage)
  | none =>
    match fs.scanFile scanner.includeTests path with
    | .ok usage => ({ scanner with known := (path, usage) :: scanner.known }, .ok usage)
    | .error e => (scanner, .error e)

end Scanner

end UnsafeAudit
