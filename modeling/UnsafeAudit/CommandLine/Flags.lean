import UnsafeAudit.Config.Basic

/-!
# Flags

A flag that is given on the command line overrides its own setting, and a
setting without a flag keeps its value. The flags on builds and those on scans
override different settings.
-/

namespace UnsafeAudit.CommandLine

structure BuildFlags where
  /-- Lists of features, each separated by commas or blanks. -/
  features : List String
  allFeatures : Bool
  noDefaultFeatures : Bool
  allTargets : Bool
  target : Option String
  jobs : Option Nat
  offline : Bool
  locked : Bool
  frozen : Bool
  deriving DecidableEq, Repr

structure ScanFlags where
  buildDeps : Bool
  devDeps : Bool
  allDeps : Bool
  invert : Bool
  all : Bool
  prefixDepth : Bool
  noIndent : Bool
  charset : Option Charset
  pattern : Option String
  forbidOnly : Bool
  includeTests : Bool
  strict : Bool
  noColor : Bool
  verbose : Bool
  deriving DecidableEq, Repr

def splitFeatures (text : String) : List String :=
  (Text.words (text.toList.map fun c => if c = ',' then ' ' else c)).map String.ofList

namespace BuildFlags

def featureNames (flags : BuildFlags) : List String := flags.features.flatMap splitFeatures

/-- The target that the flags name; an empty name is none. -/
def targetName (flags : BuildFlags) : Option String := flags.target.filter (· ≠ "")

/-- The number of jobs that the flags name; none at all is no number. -/
def jobCount (flags : BuildFlags) : Option Nat := flags.jobs.filter (· ≠ 0)

def apply (flags : BuildFlags) (config : Config) : Config :=
  let old := config.build
  { config with build := { old with
      features := if flags.featureNames.isEmpty then old.features else flags.featureNames
      allFeatures := flags.allFeatures || old.allFeatures
      noDefaultFeatures := flags.noDefaultFeatures || old.noDefaultFeatures
      allTargets := flags.allTargets || old.allTargets
      target := flags.targetName.or old.target
      jobs := (flags.jobCount.map Int.ofNat).or old.jobs
      offline := flags.offline || old.offline
      locked := flags.locked || old.locked
      frozen := flags.frozen || old.frozen } }

end BuildFlags

namespace ScanFlags

/-- The prefix of lines that the flags ask for. The depth wins. -/
def linePrefix (flags : ScanFlags) : Option LinePrefix :=
  if flags.prefixDepth then some .depth else if flags.noIndent then some .none else none

def apply (flags : ScanFlags) (config : Config) : Config :=
  { config with
    graph := {
      buildDeps := flags.buildDeps || config.graph.buildDeps
      devDeps := flags.devDeps || config.graph.devDeps
      allDeps := flags.allDeps || config.graph.allDeps
      invert := flags.invert || config.graph.invert }
    scan := {
      forbidOnly := flags.forbidOnly || config.scan.forbidOnly
      includeTests := flags.includeTests || config.scan.includeTests
      allowPartialResults := !flags.strict && config.scan.allowPartialResults }
    output := {
      all := flags.all || config.output.all
      charset := flags.charset.getD config.output.charset
      linePrefix := flags.linePrefix.getD config.output.linePrefix
      format := flags.pattern.getD config.output.format
      colorize := !flags.noColor && config.output.colorize
      verbose := flags.verbose || config.output.verbose } }

end ScanFlags

end UnsafeAudit.CommandLine
