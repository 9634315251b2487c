import UnsafeAudit.FileSystem.Resolve
import UnsafeAudit.Json.Decode

/-!
# Compiler invocations

An invocation records what a compiler command line says: the source files among
its arguments, the output directory, the crate's name and types, and whether a
test harness is built. An option takes its value from the same argument after
`=` or from the argument after it; that argument is then a value and nothing
else, whatever it looks like.
-/

namespace UnsafeAudit

structure Invocation where
  cwd : Path
  sourceRoots : List Path
  outDir : Option Path
  crateName : Option String
  crateTypes : List String
  isTest : Bool
  deriving DecidableEq, Repr

namespace Invocation

inductive ValueOption
  | outDir
  | crateName
  | crateType
  deriving DecidableEq, Repr

namespace ValueOption

def all : List ValueOption := [.outDir, .crateName, .crateType]

def spelling : ValueOption → String
  | .outDir => "--out-dir"
  | .crateName => "--crate-name"
  | .crateType => "--crate-type"

end ValueOption

/-- What one argument, or an option and its value, says. A value is missing at the end of the
command line only. -/
inductive Setting
  | value (which : ValueOption) (text : Option String)
  | test
  | source (text : String)
  deriving DecidableEq, Repr

def bare? (arg : String) : Option ValueOption := ValueOption.all.find? (·.spelling == arg)

def joined? (arg : String) : Option (ValueOption × String) :=
  ValueOption.all.findSome? fun which =>
    let start := which.spelling.toList ++ ['=']
    if start.isPrefixOf arg.toList then some (which, String.ofList (arg.toList.drop start.length))
    else none

def plain? (arg : String) : Option Setting :=
  if arg = "--test" then some .test
  else if !"-".toList.isPrefixOf arg.toList && ".rs".toList.isSuffixOf arg.toList then
    some (.source arg)
  else none

def settings : List String → List Setting
  | [] => []
  | arg :: rest =>
    match bare? arg with
    | some which =>
      match rest with
      | [] => [.value which none]
      | text :: rest => .value which (some text) :: settings rest
    | none =>
      match joined? arg with
      | some (which, text) => .value which (some text) :: settings rest
      | none => (plain? arg).toList ++ settings rest

def start (cwd : Path) : Invocation := ⟨cwd, [], none, none, [], false⟩

def crateTypesOf (text : String) : List String :=
  ((Text.splitOn ',' text.toList).map String.ofList).filter (· ≠ "")

/-- Takes one setting into account. An empty value names no directory and no crate type, and
source files are made canonical. -/
def apply (fs : FileSystem) (inv : Invocation) : Setting → Except ResolveError Invocation
  | .value .outDir text =>
    match text with
    | none | some "" => .ok inv
    | some text => .ok { inv with outDir := some (inv.cwd.join (Path.ofString text)) }
  | .value .crateName text => .ok { inv with crateName := text }
  | .value .crateType text =>
    .ok { inv with crateTypes := inv.crateTypes ++ crateTypesOf (text.getD "") }
  | .test => .ok { inv with isTest := true }
  | .source text =>
    (fs.resolve (inv.cwd.join (Path.ofString text))).map fun root =>
      { inv with sourceRoots := inv.sourceRoots ++ [root] }

def ofArgs (fs : FileSystem) (args : List String) (cwd : Path) : Except ResolveError Invocation :=
  (settings args).foldlM (apply fs) (start cwd)

/-- An invocation that compiles nothing, such as a question for the compiler's version. -/
def isProbe (inv : Invocation) : Bool := inv.sourceRoots.isEmpty && inv.outDir.isNone

def toJson (inv : Invocation) : Json := .obj [
  ("cwd", .str inv.cwd.toString),
  ("source_roots", Json.strings (inv.sourceRoots.map (·.toString))),
  ("out_dir", Json.ofOption (.str ·.toString) inv.outDir),
  ("crate_name", Json.ofOption .str inv.crateName),
  ("crate_types", Json.strings inv.crateTypes),
  ("is_test", .bool inv.isTest)]

open Decode in
def ofJson : Decoder Invocation := record fun fields =>
  Invocation.mk <$> required "cwd" path fields
    <*> defaulted "source_roots" (list path) [] fields
    <*> defaulted "out_dir" (nullable path) none fields
    <*> defaulted "crate_name" (nullable string) none fields
    <*> defaulted "crate_types" (list string) [] fields
    <*> defaulted "is_test" bool false fields

end Invocation

end UnsafeAudit
