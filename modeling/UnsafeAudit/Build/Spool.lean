import UnsafeAudit.Build.Invocation
import UnsafeAudit.Failure
import UnsafeAudit.FileSystem.Basic
import UnsafeAudit.Json.Reader
import UnsafeAudit.Json.Writer

/-!
# Invocation records

Each compiler run leaves its invocation as a file in a spool directory, which is
read when the build is over. A record is written under a temporary name and
then renamed, so that no reader finds a part of one.
-/

namespace UnsafeAudit.Spool

def suffix : String := ".json"

def temporaryName (name : String) : String := "." ++ name ++ ".tmp"

/-- First step of writing a record: the whole text under a temporary name. -/
def writeTemporary (fs : FileSystem) (spool : Path) (name : String) (inv : Invocation) :
    Except OsError FileSystem :=
  fs.writeBytes (spool.child (temporaryName name))
    (Text.Utf8.encode (Json.write .compact inv.toJson).toList)

/-- Second step: the temporary file gets the name of a record. -/
def publish (fs : FileSystem) (spool : Path) (name : String) : Except OsError FileSystem := do
  let temporary := spool.child (temporaryName name)
  let node ← fs.stat temporary
  return (← fs.remove temporary).put (spool.child (name ++ suffix)) node

def write (fs : FileSystem) (spool : Path) (name : String) (inv : Invocation) :
    Except OsError FileSystem := do
  publish (← writeTemporary fs spool name inv) spool name

def isRecord (name : String) : Bool := suffix.toList.isSuffixOf name.toList

def recordNames (fs : FileSystem) (spool : Path) : List String :=
  match fs.stat spool with
  | .ok (.dir entries) => (entries.names.filter isRecord).mergeSort fun a b => a ≤ b
  | _ => []

def readRecord (fs : FileSystem) (spool : Path) (name : String) : Except Failure Invocation :=
  let corrupt (cause : Fault) : Except Failure Invocation :=
    .error (.audit (.corruptRecord name cause))
  match fs.readBytes (spool.child name) with
  | .error e => corrupt (.os e)
  | .ok bytes =>
    match Text.Utf8.decode bytes with
    | .error m => .error (.fault (.undecodable m))
    | .ok chars =>
      match Json.read? (String.ofList chars) with
      | none => corrupt (.invalid [⟨[], .jsonInvalid⟩])
      | some value =>
        match Invocation.ofJson value with
        | .ok inv => .ok inv
        | .bad issues => corrupt (.invalid issues)

def read (fs : FileSystem) (spool : Path) : Except Failure (List Invocation) :=
  (recordNames fs spool).mapM (readRecord fs spool)

/-- What the wrapper of the compiler does before it runs the compiler: given a command line with
the compiler first, it leaves a record unless the invocation compiles nothing. -/
def observe (fs : FileSystem) (spool : Path) (name : String) (cwd : Path) (args : List String) :
    Except Fault FileSystem := do
  let inv ← (Invocation.ofArgs fs args cwd).mapError .unresolved
  if inv.isProbe then return fs else (write fs spool name inv).mapError .os

def usageStatus : Int := 2

end UnsafeAudit.Spool
