import UnsafeAudit.Config.Basic
import UnsafeAudit.DepInfo.Files
import UnsafeAudit.FileSystem.Resolve
import UnsafeAudit.Yaml.Value

/-!
# Settings files

Settings are read from a YAML file, which is given or looked for in a directory
and those above it.
-/

namespace UnsafeAudit

inductive ConfigError
  /-- The file system refused to say whether the file is there. -/
  | unanswered (e : OsError)
  | missing (path : Path)
  | malformed
  /-- The text has a value that its tag does not allow. -/
  | illTyped (trouble : Yaml.Trouble)
  | unreadable (cause : Fault)
  deriving DecidableEq, Repr

def ConfigError.message : ConfigError → String
  | .unanswered e => e.message
  | .missing path => s!"Configuration file not found: {path}"
  | .malformed => "Invalid YAML in configuration file"
  | .illTyped _ | .unreadable _ => "Failed to load configuration"

namespace Config

/-- A value inside a section of the settings. Keys that are no texts name no setting. A date is
no setting, and no decoder of one takes an object. -/
def settingOf : Nat → Yaml.Value → Json
  | 0, _ => .null
  | fuel + 1, value =>
    match value with
    | .null => .null
    | .bool b => .bool b
    | .int n => .int n
    | .float x => .float x
    | .str s => .str s
    | .bytes found =>
      match Text.Utf8.decode found with
      | .ok chars => .str (String.ofList chars)
      | .error _ => .obj []
    | .date => .obj []
    | .list items | .set items => .arr (items.map (settingOf fuel))
    | .map entries => .obj (entries.filterMap fun (key, value) =>
        match key with
        | .str name => some (name, settingOf fuel value)
        | _ => none)

/-- A section of the settings. Nothing but a mapping is one. -/
def sectionOf (value : Yaml.Value) : Json :=
  match value with
  | .map _ => settingOf 4 value
  | _ => .null

/-- The sections of a document: a mapping by names, or something that stands for nothing. -/
def sectionsOf (value : Yaml.Value) : Except Fault (List (String × Json)) :=
  if value.isFalsy then .ok []
  else match value with
    | .map entries => entries.mapM fun (key, value) =>
        match key with
        | .str name => .ok (name, sectionOf value)
        | _ => .error .wrongType
    | _ => .error .wrongType

def ofText (text : List Char) : Except ConfigError Config :=
  match Yaml.Value.ofText text with
  | .error .malformed => .error .malformed
  | .error trouble => .error (.illTyped trouble)
  | .ok value =>
    match sectionsOf value with
    | .error fault => .error (.unreadable fault)
    | .ok sections => ((ofJson (.obj sections)).orFault).mapError .unreadable

def load (fs : FileSystem) (path : Path) : Except ConfigError Config :=
  match fs.pathExists path with
  | .error e => .error (.unanswered e)
  | .ok false => .error (.missing path)
  | .ok true =>
    match DepInfo.readText fs path with
    | .error fault => .error (.unreadable fault)
    | .ok text => ofText text.toList

/-- The names of settings files, the preferred one first. -/
def fileNames : List String := [".crate-safety-audit.yaml", ".crate-safety-audit.yml"]

/-- A settings file in the directories on the way from a path up to the root, which is left
out. -/
def findFrom (fs : FileSystem) (anchor : Anchor) : List String → Except OsError (Option Path)
  | [] => .ok none
  | name :: above => do
    let directory : Path := ⟨anchor, (name :: above).reverse⟩
    match ← (fileNames.map directory.child).findM? fs.pathExists with
    | some path => return some path
    | none => findFrom fs anchor above

def find (fs : FileSystem) (start : Path) : Except Fault (Option Path) := do
  let start ← (fs.resolve start).mapError .unresolved
  (findFrom fs start.anchor start.parts.reverse).mapError .os

end Config

end UnsafeAudit
