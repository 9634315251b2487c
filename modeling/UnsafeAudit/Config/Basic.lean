import UnsafeAudit.Json.Decode
import UnsafeAudit.Tree.Vines

/-!
# Settings

Settings come in four sections: the build, the dependency graph, the scan and
the output. Every setting has a default.
-/

namespace UnsafeAudit

structure BuildConfig where
  cargo : String
  features : List String
  allFeatures : Bool
  noDefaultFeatures : Bool
  allTargets : Bool
  target : Option String
  jobs : Option Int
  offline : Bool
  locked : Bool
  frozen : Bool
  deriving DecidableEq, Repr

structure GraphConfig where
  buildDeps : Bool
  devDeps : Bool
  allDeps : Bool
  invert : Bool
  deriving DecidableEq, Repr

structure ScanConfig where
  forbidOnly : Bool
  includeTests : Bool
  allowPartialResults : Bool
  deriving DecidableEq, Repr

structure OutputConfig where
  all : Bool
  charset : Charset
  linePrefix : LinePrefix
  format : String
  colorize : Bool
  verbose : Bool
  deriving DecidableEq, Repr

structure Config where
  build : BuildConfig
  graph : GraphConfig
  scan : ScanConfig
  output : OutputConfig
  deriving DecidableEq, Repr

namespace BuildConfig

def default : BuildConfig :=
  ⟨"cargo", [], false, false, false, none, none, false, false, false⟩

def toJson (c : BuildConfig) : Json := .obj [
  ("cargo", .str c.cargo),
  ("features", Json.strings c.features),
  ("all_features", .bool c.allFeatures),
  ("no_default_features", .bool c.noDefaultFeatures),
  ("all_targets", .bool c.allTargets),
  ("target", Json.ofOption .str c.target),
  ("jobs", Json.ofOption .int c.jobs),
  ("offline", .bool c.offline),
  ("locked", .bool c.locked),
  ("frozen", .bool c.frozen)]

open Decode in
def ofJson : Decoder BuildConfig := record fun fields =>
  BuildConfig.mk <$> defaulted "cargo" string "cargo" fields
    <*> defaulted "features" (list string) [] fields
    <*> defaulted "all_features" bool false fields
    <*> defaulted "no_default_features" bool false fields
    <*> defaulted "all_targets" bool false fields
    <*> defaulted "target" (nullable string) none fields
    <*> defaulted "jobs" (nullable (intFrom 1)) none fields
    <*> defaulted "offline" bool false fields
    <*> defaulted "locked" bool false fields
    <*> defaulted "frozen" bool false fields

end BuildConfig

namespace GraphConfig

def default : GraphConfig := ⟨false, false, false, false⟩

def toJson (c : GraphConfig) : Json := .obj [
  ("build_deps", .bool c.buildDeps),
  ("dev_deps", .bool c.devDeps),
  ("all_deps", .bool c.allDeps),
  ("invert", .bool c.invert)]

open Decode in
def ofJson : Decoder GraphConfig := record fun fields =>
  GraphConfig.mk <$> defaulted "build_deps" bool false fields
    <*> defaulted "dev_deps" bool false fields
    <*> defaulted "all_deps" bool false fields
    <*> defaulted "invert" bool false fields

def includes (c : GraphConfig) : DependencyKind → Bool
  | .normal | .targetSpecific => true
  | .build => c.buildDeps || c.allDeps
  | .development => c.devDeps || c.allDeps
  | .other => c.allDeps

end GraphConfig

namespace ScanConfig

def default : ScanConfig := ⟨false, false, true⟩

def toJson (c : ScanConfig) : Json := .obj [
  ("forbid_only", .bool c.forbidOnly),
  ("include_tests", .bool c.includeTests),
  ("allow_partial_results", .bool c.allowPartialResults)]

open Decode in
def ofJson : Decoder ScanConfig := record fun fields =>
  ScanConfig.mk <$> defaulted "forbid_only" bool false fields
    <*> defaulted "include_tests" bool false fields
    <*> defaulted "allow_partial_results" bool true fields

end ScanConfig

namespace OutputConfig

def default : OutputConfig := ⟨false, .utf8, .indent, "\x7bp\x7d", true, false⟩

def toJson (c : OutputConfig) : Json := .obj [
  ("all", .bool c.all),
  ("charset", .str c.charset.word),
  ("prefix", .str c.linePrefix.word),
  ("format", .str c.format),
  ("colorize", .bool c.colorize),
  ("verbose", .bool c.verbose)]

open Decode in
def ofJson : Decoder OutputConfig := record fun fields =>
  OutputConfig.mk <$> defaulted "all" bool false fields
    <*> defaulted "charset" (word Charset.ofWord?) .utf8 fields
    <*> defaulted "prefix" (word LinePrefix.ofWord?) .indent fields
    <*> defaulted "format" string "\x7bp\x7d" fields
    <*> defaulted "colorize" bool true fields
    <*> defaulted "verbose" bool false fields

end OutputConfig

namespace Config

def default : Config := ⟨.default, .default, .default, .default⟩

def toJson (c : Config) : Json := .obj [
  ("build", c.build.toJson),
  ("graph", c.graph.toJson),
  ("scan", c.scan.toJson),
  ("output", c.output.toJson)]

def sections : List String := ["build", "graph", "scan", "output"]

open Decode in
/-- Unlike its sections, the whole refuses names that it does not know. -/
def ofJson : Decoder Config := record fun fields =>
  (fun build graph scan output _ => Config.mk build graph scan output)
    <$> defaulted "build" BuildConfig.ofJson .default fields
    <*> defaulted "graph" GraphConfig.ofJson .default fields
    <*> defaulted "scan" ScanConfig.ofJson .default fields
    <*> defaulted "output" OutputConfig.ofJson .default fields
    <*> only sections fields

end Config

namespace TreeOptions

def ofConfig (c : Config) : TreeOptions :=
  ⟨c.output.all, if c.graph.invert then .incoming else .outgoing, c.output.linePrefix,
    c.output.charset⟩

def toJson (o : TreeOptions) : Json := .obj [
  ("all", .bool o.all),
  ("direction", .str o.direction.word),
  ("prefix", .str o.linePrefix.word),
  ("charset", .str o.charset.word)]

open Decode in
def ofJson : Decoder TreeOptions := record fun fields =>
  TreeOptions.mk <$> defaulted "all" bool false fields
    <*> defaulted "direction" (word Direction.ofWord?) .outgoing fields
    <*> defaulted "prefix" (word LinePrefix.ofWord?) .indent fields
    <*> defaulted "charset" (word Charset.ofWord?) .utf8 fields

end TreeOptions

end UnsafeAudit
