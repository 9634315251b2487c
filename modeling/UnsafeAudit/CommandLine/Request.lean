import UnsafeAudit.CommandLine.Flags
import UnsafeAudit.CommandLine.Stop
import UnsafeAudit.Text.Digits

/-!
# Requests

What a command line asks for: the command, the crate that it is about, the flags
that override settings, and where and in which format the answer goes.
-/

namespace UnsafeAudit.CommandLine

inductive FormatName
  | text
  | json
  | yaml
  deriving DecidableEq, Repr

namespace FormatName

def all : List FormatName := [.text, .json, .yaml]

def word : FormatName → String
  | .text => "text"
  | .json => "json"
  | .yaml => "yaml"

def ofWord? (w : String) : Option FormatName := all.find? (·.word == w)

end FormatName

structure CrateOptions where
  manifest : Path
  package : Option String
  metadataFile : Option Path
  build : BuildFlags
  format : FormatName
  output : Option Path
  noColor : Bool
  verbose : Bool
  deriving DecidableEq, Repr

inductive Command
  | scan (options : CrateOptions) (flags : ScanFlags)
  | files (options : CrateOptions)
  deriving DecidableEq, Repr

inductive CommandName
  | scan
  | files
  deriving DecidableEq, Repr

namespace CommandName

def all : List CommandName := [.scan, .files]

def word : CommandName → String
  | .scan => "scan"
  | .files => "files"

def ofWord? (w : String) : Option CommandName := all.find? (·.word == w)

def summary : CommandName → String
  | .scan => "Build the crate, scan every compiled file and print the safety tree."
  | .files => "Build the crate and list every compiled source file."

end CommandName

open OptionSpec (flag valued)

def helpOption : OptionSpec := flag "help" none "Show this message and exit."

def programOptions : List OptionSpec := [
  flag "version" none "Show the version and exit.",
  valued "config" (some 'c') "PATH" "Path to configuration file.",
  helpOption]

def crateOptions : List OptionSpec := [
  valued "manifest-path" none "FILE" "Path to the Cargo.toml to audit.",
  valued "package" (some 'p') "TEXT" "Package to audit, as NAME or NAME@VERSION.",
  valued "metadata-file" none "FILE" "Read saved cargo metadata instead of running cargo.",
  valued "features" (some 'F') "TEXT" "Space or comma separated list of features to activate.",
  flag "all-features" none "Activate all available features.",
  flag "no-default-features" none "Do not activate the default feature.",
  flag "all-targets" none "Check all targets.",
  valued "target" none "TEXT" "Target triple to build for.",
  valued "jobs" (some 'j') "INTEGER" "Number of parallel jobs.",
  flag "offline" none "Run without accessing the network.",
  flag "locked" none "Require Cargo.lock to be up to date.",
  flag "frozen" none "Require Cargo.lock and cache to be up to date.",
  valued "format" (some 'f') "FORMAT" "Output format: text (the default), json or yaml.",
  valued "output" (some 'o') "PATH" "Output file path. If not specified, prints to stdout.",
  flag "no-color" none "Disable colored output.",
  flag "verbose" (some 'v') "Enable verbose output."]

def scanOptions : List OptionSpec := [
  flag "build-deps" none "Include build dependencies.",
  flag "dev-deps" none "Include dev dependencies.",
  flag "all-deps" none "Include all dependency kinds.",
  flag "invert" (some 'i') "Invert the tree direction.",
  flag "all" (some 'a') "Don't truncate dependencies that have already been displayed.",
  flag "prefix-depth" none "Display the numeric depth instead of tree vines.",
  flag "no-indent" none "Display the dependencies as a list.",
  valued "charset" none "CHARSET" "Character set to use in output: utf8 or ascii.",
  valued "format-pattern" none "TEXT" "How to show a package, with placeholders in braces.",
  flag "forbid-only" none "Only check entry points for #![forbid(unsafe_code)]; skips the build.",
  flag "include-tests" none "Count unsafe usage in test code.",
  flag "strict" none "Fail instead of skipping packages that cannot be scanned."]

def CommandName.options : CommandName → List OptionSpec
  | .scan => crateOptions ++ scanOptions ++ [helpOption]
  | .files => crateOptions ++ [helpOption]

def nodeAt (fs : FileSystem) (text : String) : Except Stop (Option Node) :=
  if text.contains '\x00' then
    .error (.crashed (.badValue "embedded null byte"))
  else .ok (fs.statText text).toOption

def anyPath (fs : FileSystem) (text : String) : Except Stop Path := do
  let _ ← nodeAt fs text
  return Path.ofString text

def existingPath (fs : FileSystem) (option text : String) : Except Stop Path := do
  match ← nodeAt fs text with
  | some _ => return Path.ofString text
  | none => throw (.usage (.badValue option text))

def filePath (fs : FileSystem) (option text : String) : Except Stop Path := do
  match ← nodeAt fs text with
  | some (.dir _) => throw (.usage (.badValue option text))
  | _ => return Path.ofString text

def existingFile (fs : FileSystem) (option text : String) : Except Stop Path := do
  let _ ← existingPath fs option text
  filePath fs option text

namespace Arguments

def wordValue? (arguments : Arguments) (option : String) (ofWord? : String → Option α) :
    Except Stop (Option α) :=
  match arguments.value? option with
  | none => .ok none
  | some text =>
    match ofWord? text with
    | some a => .ok (some a)
    | none => .error (.usage (.badValue s!"--{option}" text))

def jobCount? (text : String) : Option Nat :=
  (Text.natural? text.toList).filter (1 ≤ ·)

def buildFlags (arguments : Arguments) : Except Stop BuildFlags := do
  let jobs ← arguments.wordValue? "jobs" jobCount?
  return {
    features := arguments.values "features"
    allFeatures := arguments.has "all-features"
    noDefaultFeatures := arguments.has "no-default-features"
    allTargets := arguments.has "all-targets"
    target := arguments.value? "target"
    jobs
    offline := arguments.has "offline"
    locked := arguments.has "locked"
    frozen := arguments.has "frozen" }

def crate (arguments : Arguments) (fs : FileSystem) : Except Stop CrateOptions := do
  let manifest ← filePath fs "--manifest-path"
    ((arguments.value? "manifest-path").getD "Cargo.toml")
  let metadataFile ← (arguments.value? "metadata-file").mapM (existingFile fs "--metadata-file")
  let build ← arguments.buildFlags
  let format ← arguments.wordValue? "format" FormatName.ofWord?
  let output ← (arguments.value? "output").mapM (anyPath fs)
  return {
    manifest, metadataFile, build, output
    package := arguments.value? "package"
    format := format.getD .text
    noColor := arguments.has "no-color"
    verbose := arguments.has "verbose" }

def scanFlags (arguments : Arguments) : Except Stop ScanFlags := do
  let charset ← arguments.wordValue? "charset" Charset.ofWord?
  return {
    charset
    buildDeps := arguments.has "build-deps"
    devDeps := arguments.has "dev-deps"
    allDeps := arguments.has "all-deps"
    invert := arguments.has "invert"
    all := arguments.has "all"
    prefixDepth := arguments.has "prefix-depth"
    noIndent := arguments.has "no-indent"
    pattern := arguments.value? "format-pattern"
    forbidOnly := arguments.has "forbid-only"
    includeTests := arguments.has "include-tests"
    strict := arguments.has "strict"
    noColor := arguments.has "no-color"
    verbose := arguments.has "verbose" }

/-- The command that arguments ask for. A command takes no operands. -/
def command (arguments : Arguments) (fs : FileSystem) (name : CommandName) :
    Except Stop Command := do
  let options ← arguments.crate fs
  let command ←
    match name with
    | .scan => (Command.scan options) <$> arguments.scanFlags
    | .files => pure (Command.files options)
  if arguments.operands.isEmpty then return command
  else throw (.usage (.extraArguments arguments.operands))

end Arguments

end UnsafeAudit.CommandLine
