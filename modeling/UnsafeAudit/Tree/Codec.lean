import UnsafeAudit.Tree.Line

/-!
# Tree lines as JSON

Each line is an object whose `type` says which kind of line it is.
-/

namespace UnsafeAudit

open Decode

namespace PackageLine

def toJson (line : PackageLine) : Json := .obj [
  ("type", .str "package"),
  ("package_id", line.packageId.toJson),
  ("tree_vines", .str line.vines),
  ("depth", .nat line.depth),
  ("verdict", .str line.verdict.word),
  ("symbol", .str line.symbol.word)]

def ofJson : Decoder PackageLine := record fun fields =>
  PackageLine.mk <$> required "package_id" PackageId.ofJson fields
    <*> defaulted "tree_vines" string "" fields
    <*> defaulted "depth" natural 0 fields
    <*> defaulted "verdict" (word Verdict.ofWord?) .noneDetectedButNotForbidden fields
    <*> defaulted "symbol" (word SafetySymbol.ofWord?) .questionMark fields

end PackageLine

namespace GroupLine

def toJson (line : GroupLine) : Json := .obj [
  ("type", .str "group"),
  ("kind", .str line.kind.word),
  ("tree_vines", .str line.vines)]

def ofJson : Decoder GroupLine := record fun fields =>
  GroupLine.mk <$> required "kind" (word DependencyKind.ofWord?) fields
    <*> defaulted "tree_vines" string "" fields

end GroupLine

namespace TreeLine

def toJson : TreeLine → Json
  | .package line => line.toJson
  | .group line => line.toJson

/-- The decoder is chosen by the `type` of the line, which is also a step to its issues. -/
def ofJson : Decoder TreeLine
  | .obj fields =>
    match fields.lookup "type" with
    | none => .issue .unionTagNotFound
    | some (.str "package") =>
      ((PackageLine.ofJson (.obj fields)).map .package).below (.field "package")
    | some (.str "group") =>
      ((GroupLine.ofJson (.obj fields)).map .group).below (.field "group")
    | some _ => .issue .unionTagInvalid
  | _ => .issue .modelAttributesType

end TreeLine

end UnsafeAudit
