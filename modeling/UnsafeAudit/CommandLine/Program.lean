import UnsafeAudit.Audit.Basic
import UnsafeAudit.CommandLine.Request
import UnsafeAudit.Report.Format
import UnsafeAudit.Rust.Grammar

/-!
# The program

A command line is read, settings are loaded, the command is run with its flags
over the settings, and its answer is printed or written to a file. The settings
that the program is given are loaded before the arguments of the command are
read. Files are parsed by `Rust.Grammar`.
-/

namespace UnsafeAudit.CommandLine

abbrev Task := ExceptT Stop (StateM Session)

namespace Task

def ofExcept (result : Except Stop α) : Task α := ExceptT.mk (pure result)

def stop (reason : Stop) : Task α := ofExcept (.error reason)

def ofRun (run : Run α) : Task α := ExceptT.mk do return (← run.run).mapError Stop.ofFailure

def ofResult (result : Except Failure α) : Task α := ofExcept (result.mapError Stop.ofFailure)

def files : Task FileSystem := do return (← get).files

def tell (message : String) : Task Unit :=
  ofExcept ((Text.Markup.check message).mapError .unshown)

end Task

def version : String := "0.1.0"

def programName : String := "crate-safety-audit"

def versionText : String := s!"{programName}, version {version}\n"

def optionText (spec : OptionSpec) : String :=
  let letter := (spec.letter.map fun c => s!"-{c}, ").getD ""
  let value := (spec.value.map fun v => s!" {v}").getD ""
  s!"{letter}{spec.long}{value}"

def helpList (title : String) (rows : List (String × String)) : String :=
  let width := rows.foldl (fun width row => max width row.1.length) 0
  let lines := rows.map fun (left, right) =>
    s!"  {left}" ++ String.ofList (List.replicate (width - left.length + 2) ' ') ++ right
  Text.joinWith "\n" (s!"{title}:" :: lines) ++ "\n"

def optionList (specs : List OptionSpec) : String :=
  helpList "Options" (specs.map fun spec => (optionText spec, spec.summary))

def programHelp : String :=
  s!"Usage: {programName} [OPTIONS] COMMAND [ARGS]...\n\n" ++
    "  Crate Safety Audit - Find unsafe Rust code in a crate and its dependencies.\n\n" ++
    optionList programOptions ++ "\n" ++
    helpList "Commands" (CommandName.all.map fun name => (name.word, name.summary))

def commandHelp (name : CommandName) : String :=
  s!"Usage: {programName} {name.word} [OPTIONS]\n\n  {name.summary}\n\n" ++ optionList name.options

def loadSettings (path : Path) : Task Config := do
  Task.ofExcept ((Config.load (← Task.files) path).mapError Stop.ofConfigError)

/-- The settings for a manifest: those that were given, those of a settings file in its directory
or above, or the defaults. -/
def settingsFor (manifest : Path) : Option Config → Task Config
  | some config => pure config
  | none => do
    let fs ← Task.files
    let found ← Task.ofResult do
      let manifest ← (fs.resolve manifest).mapError fun e => .fault (.unresolved e)
      (Config.find fs manifest.parent).mapError .fault
    match found with
    | some path => loadSettings path
    | none => pure .default

def auditOf (cargo : Cargo) (options : CrateOptions) (config : Config) : Task Audit := do
  let fs ← Task.files
  Task.ofResult do
    let loaded ← options.metadataFile.mapM (Metadata.ofFile fs)
    let manifest ← (fs.resolve options.manifest).mapError fun e => .fault (.unresolved e)
    return Audit.new cargo manifest config options.package loaded

def deliver (answer : String) : Option Path → Task String
  | none => pure answer
  | some path => do
    let written := (← Task.files).writeBytes path (Text.Utf8.encode answer.toList)
    let files ← Task.ofResult (written.mapError fun e => .fault (.os e))
    modify fun s => { s with files }
    Task.tell s!"[green]Results written to:[/green] {path}"
    return ""

/-- The format of a report. A report that goes to a file has no colours. -/
def reportFormat (options : CrateOptions) (output : OutputConfig) : Except Failure Format :=
  match options.format with
  | .text => do
    let pattern ← (Pattern.parse output.format).mapError fun e => .audit (.pattern e)
    return .text ⟨output.colorize && options.output.isNone, output.charset, pattern⟩
  | .json => .ok (.json (some 2))
  | .yaml => .ok .yaml

def listingFormat : FormatName → Format
  | .text => .text ⟨false, .utf8, []⟩
  | .json => .json (some 2)
  | .yaml => .yaml

def scan (clock : Clock) (cargo : Cargo) (settings : Option Config) (options : CrateOptions)
    (flags : ScanFlags) : Task String := do
  let config := flags.apply (options.build.apply (← settingsFor options.manifest settings))
  if options.verbose then
    Task.tell s!"[blue]Auditing crate at:[/blue] {options.manifest}"
  let audit ← auditOf cargo options config
  let report ← Task.ofRun (audit.run clock)
  let format ← Task.ofResult (reportFormat options config.output)
  deliver (format.render report) options.output

def listFiles (cargo : Cargo) (settings : Option Config) (options : CrateOptions) :
    Task String := do
  let config := options.build.apply (← settingsFor options.manifest settings)
  let audit ← auditOf cargo options config
  let files ← Task.ofRun audit.listCompiledFiles
  deliver ((listingFormat options.format).renderFiles files) options.output

def Command.run (clock : Clock) (cargo : Cargo) (settings : Option Config) :
    Command → Task String
  | .scan options flags => CommandLine.scan clock cargo settings options flags
  | .files options => listFiles cargo settings options

def runCommand (clock : Clock) (cargo : Cargo) (settings : Option Config) (name : CommandName)
    (texts : List String) : Task String := do
  let arguments ← Task.ofExcept ((Arguments.read name.options true texts).mapError .usage)
  if arguments.has helpOption.word then return commandHelp name
  let command ← Task.ofExcept (arguments.command (← Task.files) name)
  command.run clock cargo settings

/-- What an option asks for that ends the program before a command is looked at. -/
def answerAtOnce? (given : Given) : Option String :=
  if given.word = "version" then some versionText
  else if given.word = helpOption.word then some programHelp
  else none

/-- Runs the program on a command line. The result is what it prints. -/
def run (clock : Clock) (cargo : Cargo) (texts : List String) : Task String := do
  let arguments ← Task.ofExcept ((Arguments.read programOptions false texts).mapError .usage)
  match arguments.options.findSome? answerAtOnce? with
  | some answer => return answer
  | none =>
    let path ← Task.ofExcept
      ((arguments.value? "config").mapM (existingPath (← Task.files) "--config"))
    match arguments.operands with
    | [] => Task.stop (.usage .missingCommand)
    | word :: texts =>
      match CommandName.ofWord? word with
      | none => Task.stop (.usage (.unknownCommand word))
      | some name => runCommand clock cargo (← path.mapM loadSettings) name texts

end UnsafeAudit.CommandLine
