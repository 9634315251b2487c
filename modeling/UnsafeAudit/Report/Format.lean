import UnsafeAudit.Json.Writer
import UnsafeAudit.Report.Document
import UnsafeAudit.Report.Terminal
import UnsafeAudit.Yaml.Writer

/-!
# Output formats

A report, or a listing of compiled files, is written as JSON, as YAML or as text
for a terminal. Formats are kept under the names by which they are asked for.
-/

namespace UnsafeAudit

inductive Format
  | text (options : TerminalOptions)
  /-- With a line for each member, indented by so many columns, or all on one line. -/
  | json (indent : Option Nat)
  | yaml
  deriving Repr

namespace Format

def jsonText (indent : Option Nat) (document : Json) : String :=
  Json.write (match indent with | some width => .indented width | none => .line) document

def yamlText : Json → String
  | .obj fields => Yaml.write fields
  | _ => ""

def render (format : Format) (report : AuditReport) : String :=
  match format with
  | .text options => options.reportText report
  | .json indent => jsonText indent report.document
  | .yaml => yamlText report.document

def renderFiles (format : Format) (files : List CompiledFile) : String :=
  match format with
  | .text _ => CompiledFile.listingText files
  | .json indent => jsonText indent (CompiledFile.document files)
  | .yaml => yamlText (CompiledFile.document files)

end Format

/-- Something that writes reports. It knows the name that it was registered under last. -/
structure Formatter where
  title : String
  name : String
  deriving DecidableEq, Repr

inductive RegistryError
  | taken (name title : String)
  | unknown (name : String) (available : List String)
  deriving DecidableEq, Repr

def RegistryError.message : RegistryError → String
  | .taken name title => s!"Formatter {Text.quoted name} is already registered by {title}"
  | .unknown name available =>
    let shown := Text.joinWith ", " available
    s!"Unknown formatter: {name}. Available: {shown}"

structure Registry where
  formatters : List Formatter
  names : List (String × Nat)
  deriving DecidableEq, Repr

namespace Registry

def initial : Registry where
  formatters := [⟨"JsonFormatter", "json"⟩, ⟨"TextFormatter", "text"⟩, ⟨"YamlFormatter", "yaml"⟩]
  names := [("json", 0), ("text", 1), ("yaml", 2)]

def available (r : Registry) : List String := r.names.map (·.1)

def formatterAt (r : Registry) (place : Nat) : Formatter := r.formatters.getD place ⟨"", ""⟩

def get (r : Registry) (name : String) : Except RegistryError Formatter :=
  match r.names.lookup name with
  | some place => .ok (r.formatterAt place)
  | none => .error (.unknown name r.available)

/-- Registers the formatter at a place. A name stays with the formatter that has it. -/
def register (r : Registry) (name : String) (place : Nat) : Except RegistryError Registry :=
  let formatters := r.formatters.modify place fun f => { f with name }
  match r.names.lookup name with
  | none => .ok ⟨formatters, r.names ++ [(name, place)]⟩
  | some other =>
    if other = place then .ok ⟨formatters, r.names⟩
    else .error (.taken name (r.formatterAt other).title)

def registerNew (r : Registry) (name title : String) : Except RegistryError Registry :=
  register ⟨r.formatters ++ [⟨title, name⟩], r.names⟩ name r.formatters.length

end Registry

end UnsafeAudit
