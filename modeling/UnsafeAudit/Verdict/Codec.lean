import UnsafeAudit.Verdict.Basic

/-!
# Metrics as JSON
-/

namespace UnsafeAudit

open Decode

namespace FileUsage

def toJson (usage : FileUsage) : Json := .obj [
  ("counts", usage.counts.toJson),
  ("forbids_unsafe", .bool usage.forbidsUnsafe)]

def ofJson : Decoder FileUsage := record fun fields =>
  FileUsage.mk <$> defaulted "counts" UnsafeCounts.ofJson .zero fields
    <*> defaulted "forbids_unsafe" bool false fields

end FileUsage

namespace SourceFile

def ofJson : Decoder SourceFile := record fun fields =>
  SourceFile.mk <$> required "path" Decode.path fields
    <*> defaulted "role" (word FileRole.ofWord?) .other fields

end SourceFile

namespace FileMetrics

def ofJson : Decoder FileMetrics := record fun fields =>
  FileMetrics.mk <$> required "file" SourceFile.ofJson fields
    <*> required "metrics" FileUsage.ofJson fields

end FileMetrics

namespace PackageMetrics

def filesOfFields : List (String × Json) → Checked (List (Path × FileMetrics))
  | [] => .ok []
  | (name, value) :: rest =>
    (fun entry more => (Path.ofString name, entry) :: more)
      <$> (FileMetrics.ofJson value).below (.field name) <*> filesOfFields rest

def filesOfJson : Decoder (List (Path × FileMetrics))
  | .obj fields => (filesOfFields fields).map (Table.ofList fun a b => a.1 = b.1)
  | _ => .issue .dictType

def ofJson : Decoder PackageMetrics := record fun fields =>
  PackageMetrics.mk <$> required "package_id" PackageId.ofJson fields
    <*> defaulted "files" filesOfJson [] fields

end PackageMetrics

end UnsafeAudit
