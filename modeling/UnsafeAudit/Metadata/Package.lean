import UnsafeAudit.Metadata.Basic

/-!
# Packages in metadata

The details of a package come from its description, the features that are
enabled from its node. A target of which no kind is known is left out.
-/

namespace UnsafeAudit.Metadata

/-- Whether a list of kinds has a word. In a text it may stand anywhere. -/
def hasWord (kinds : Json) (word : String) : Except Fault Bool :=
  match kinds with
  | .arr items => .ok (items.any fun item => item.text? = some word)
  | .obj fields => .ok (fields.any fun (name, _) => name = word)
  | .str s => .ok (Text.cut? word.toList s.toList).isSome
  | _ => .error .wrongType

/-- Whether some library kind is among the kinds, each of which must be a scalar. -/
def hasLibraryKind (kinds : Json) : Except Fault Bool := do
  let keys ← (← kinds.parts).mapM (·.asKey)
  return keys.any fun key => key.text?.any (TargetKind.libraryKinds.contains ·)

/-- The crate types of an example. What is no text is a type of its own. -/
def crateTypes (types : Json) : Except Fault (List String) := do
  if types.isTruthy then return (← types.parts).map fun type => type.text?.getD ""
  else return []

def targetKind (kinds types : Json) : Except Fault (Option TargetKind) := do
  let words ← ["custom-build", "example", "bin", "test", "bench"].filterM (hasWord kinds)
  if words.isEmpty then return if ← hasLibraryKind kinds then some .lib else none
  else if "example" ∈ words && "custom-build" ∉ words then return TargetKind.ofListed? words (← crateTypes types)
  else return TargetKind.ofListed? words []

def readTarget (description : Json) : Except Fault (Option Target) := do
  let kinds ← description.optional "kind" (.arr [])
  let types ← description.optional "crate_types" (.arr [])
  match ← targetKind kinds types with
  | none => return none
  | some kind =>
    let name ← description.needed "name"
    let srcPath ← (← description.needed "src_path").asPath
    let name ← ((Decode.string name).below (.field "name")).orFault
    return some ⟨name, kind, srcPath⟩

def nodeOf (metadata : Metadata) (key : Json) : Json :=
  match metadata.nodes.find? fun node => sameKey node.key key with
  | some node => node.description
  | none => .obj []

def package (metadata : Metadata) (key : Json) : Except Fault Package := do
  match metadata.entry? key with
  | none => .error (.missingKey key.quotedKey)
  | some entry =>
    let targets ← (← (← entry.description.optional "targets" (.arr [])).parts).filterMapM
      readTarget
    let manifestPath ← (← entry.description.needed "manifest_path").asPath
    let license ← entry.description.optional "license" .null
    let repository ← entry.description.optional "repository" .null
    let features ← (← (metadata.nodeOf key).optional "features" (.arr [])).parts
    let fields := [("license", license), ("repository", repository), ("features", .arr features)]
    (open Decode in
      (fun license repository features =>
        Package.mk entry.id manifestPath license repository features targets)
        <$> required "license" (nullable string) fields
        <*> required "repository" (nullable string) fields
        <*> required "features" (list string) fields).orFault

end UnsafeAudit.Metadata
