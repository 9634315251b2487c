import UnsafeAudit.Package.Basic
import UnsafeAudit.Json.Decode

/-!
# Packages as JSON
-/

namespace UnsafeAudit

open Decode

namespace PackageId

def toJson (id : PackageId) : Json := .obj [
  ("name", .str id.name),
  ("version", .str id.version),
  ("source", Json.ofOption .str id.source),
  ("repr_id", .str id.reprId)]

def ofJson : Decoder PackageId := record fun fields =>
  PackageId.mk <$> required "name" string fields <*> required "version" string fields
    <*> defaulted "source" (nullable string) none fields
    <*> defaulted "repr_id" string "" fields

end PackageId

namespace Target

def toJson (target : Target) : Json := .obj [
  ("name", .str target.name),
  ("kind", .str target.kind.word),
  ("src_path", .str target.srcPath.toString)]

def ofJson : Decoder Target := record fun fields =>
  Target.mk <$> required "name" string fields
    <*> required "kind" (word TargetKind.ofWord?) fields
    <*> required "src_path" path fields

end Target

namespace Package

def toJson (package : Package) : Json := .obj [
  ("id", package.id.toJson),
  ("manifest_path", .str package.manifestPath.toString),
  ("license", Json.ofOption .str package.license),
  ("repository", Json.ofOption .str package.repository),
  ("features", Json.strings package.features),
  ("targets", .arr (package.targets.map Target.toJson))]

def ofJson : Decoder Package := record fun fields =>
  Package.mk <$> required "id" PackageId.ofJson fields
    <*> required "manifest_path" path fields
    <*> defaulted "license" (nullable string) none fields
    <*> defaulted "repository" (nullable string) none fields
    <*> defaulted "features" (list string) [] fields
    <*> defaulted "targets" (list Target.ofJson) [] fields

end Package

end UnsafeAudit
