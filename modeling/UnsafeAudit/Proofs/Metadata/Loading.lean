import UnsafeAudit.Proofs.Metadata.Declared
import UnsafeAudit.Proofs.Table.Keys

/-!
# Loading well-typed documents

A well-typed document is read without a fault (`ofJson_eq`), and what is then
looked up in the metadata is what the document declares: identities, packages
and dependencies.
-/

namespace UnsafeAudit

open Declared (WellTyped)

variable {document : Json} {id : String}

-- ---------------------------------------------------------------------------
-- The parts of a well-typed document
-- ---------------------------------------------------------------------------

namespace Declared

theorem WellTyped.exists_resolve (h : WellTyped document) :
    ∃ fields, document.field? "resolve" = some (.obj fields) ∧ resolveShape (.obj fields) := by
  obtain ⟨v, hv, hs⟩ := Json.exists_field "resolve" h rfl
  obtain ⟨fields, rfl⟩ := Json.exists_fields hs
  exact ⟨fields, hv, hs⟩

theorem WellTyped.resolve (h : WellTyped document) : resolveShape (resolve document) := by
  obtain ⟨fields, hv, hs⟩ := h.exists_resolve
  rw [Declared.resolve, hv]
  exact hs

theorem WellTyped.package (h : WellTyped document) : ∀ d ∈ packages document, packageShape d :=
  Json.shape_of_mem_itemsAt "packages" h rfl

theorem WellTyped.node (h : WellTyped document) : ∀ d ∈ nodes document, nodeShape d :=
  Json.shape_of_mem_itemsAt "nodes" h.resolve rfl

theorem mem_of_last? {descriptions : List Json} (h : last? descriptions id = some d) :
    d ∈ descriptions ∧ d.textAt "id" = id := by
  simpa using List.mem_of_getLast? h

theorem WellTyped.dependency (h : WellTyped document) (id : String) :
    ∀ d ∈ dependencies document id, dependencyShape d := by
  intro d hd
  unfold dependencies at hd
  split at hd
  · rename_i node hnode
    exact Json.shape_of_mem_itemsAt "deps" (h.node node (mem_of_last? hnode).1) rfl d hd
  · cases hd

end Declared

-- ---------------------------------------------------------------------------
-- The metadata of a document
-- ---------------------------------------------------------------------------

namespace Declared

def entry (description : Json) : PackageEntry := ⟨identityOf description, description⟩

def node (description : Json) : ResolveNode := ⟨.str (description.textAt "id"), description⟩

/-- The descriptions with different ids: of those with the same id the last, where the first
stood. -/
def listed (descriptions : List Json) : List Json :=
  Table.ofList (fun a b => a.textAt "id" = b.textAt "id") descriptions

theorem keyed_id (descriptions : List Json) :
    Table.Keyed (fun a b : Json => a.textAt "id" = b.textAt "id") (·.textAt "id") descriptions :=
  fun _ _ _ _ => rfl

theorem map_id_listed (descriptions : List Json) :
    (listed descriptions).map (·.textAt "id") =
      (descriptions.map (·.textAt "id")).eraseDups :=
  Table.map_key_ofList (keyed_id descriptions)

theorem find?_listed (descriptions : List Json) (id : String) :
    (listed descriptions).find? (·.textAt "id" = id) = last? descriptions id :=
  Table.find?_ofList (keyed_id descriptions) id

theorem last?_of_mem_listed {descriptions : List Json} (h : d ∈ listed descriptions) :
    last? descriptions (d.textAt "id") = some d := by
  rw [← find?_listed]
  exact Table.find?_of_mem_ofList (keyed_id descriptions) h

variable (document)

def workspaceRoot : Path := Path.ofString ((document.textAt? "workspace_root").getD ".")

def targetDirectory : Path :=
  if (document.textAt "target_directory").isEmpty then (workspaceRoot document).child "target"
  else Path.ofString (document.textAt "target_directory")

def metadata : Metadata where
  workspaceRoot := workspaceRoot document
  targetDirectory := targetDirectory document
  root := .ofOption .str ((resolve document).textAt? "root")
  packages := (listed (packages document)).map entry
  nodes := (listed (nodes document)).map node

end Declared

namespace Metadata

open Declared (metadata)

theorem readPackage_eq (h : Declared.packageShape description) :
    readPackage description = .ok (Declared.entry description) := by
  unfold readPackage
  rw [Json.needed_text "id" h rfl, Json.needed_text "name" h rfl,
    Json.needed_text "version" h rfl,
    Json.optional_text_orNull "source" h rfl]
  cases hsource : description.textAt? "source" <;>
    (rw [Declared.entry, Declared.identityOf, hsource]; rfl)

theorem readNode_eq (h : Declared.nodeShape description) :
    readNode description = .ok (Declared.node description) := by
  unfold readNode
  rw [Json.needed_text "id" h rfl]
  rfl

theorem readTargetDirectory_eq (h : WellTyped document) :
    readTargetDirectory document (Declared.workspaceRoot document) =
      .ok (Declared.targetDirectory document) := by
  unfold readTargetDirectory Declared.targetDirectory Json.textAt
  rw [Json.optional_text_orNull "target_directory" h rfl]
  cases document.textAt? "target_directory" with
  | none => rfl
  | some directory =>
    show (if (!directory.isEmpty) = true then _ else _) = _
    cases hd : directory.isEmpty
    · simp [hd, Json.asPath, Json.ofOption]
    · simp [hd]
      rfl

theorem readDocument_eq (h : WellTyped document) :
    readDocument document (Declared.resolve document) = .ok (metadata document) := by
  have hpackages : (Declared.packages document).mapM readPackage =
      .ok ((Declared.packages document).map Declared.entry) :=
    mapM_ok fun d hd => readPackage_eq (h.package d hd)
  have hnodes : (Declared.nodes document).mapM readNode =
      .ok ((Declared.nodes document).map Declared.node) :=
    mapM_ok fun d hd => readNode_eq (h.node d hd)
  unfold readDocument
  rw [Json.optional_text "workspace_root" h rfl,
    Json.optional_list "packages" h rfl,
    Json.optional_list "nodes" h.resolve rfl,
    Json.optional_text_orNull "root" h.resolve rfl]
  show (readTargetDirectory document (Declared.workspaceRoot document) >>= fun _ => _) = _
  rw [readTargetDirectory_eq h]
  show ((Declared.packages document).mapM readPackage >>= fun _ => _) = _
  rw [hpackages]
  show ((Declared.nodes document).mapM readNode >>= fun _ => _) = _
  rw [hnodes]
  show Except.ok (Metadata.mk _ _ _ (Table.ofList _ ((Declared.packages document).map _))
    (Table.ofList _ ((Declared.nodes document).map _))) = _
  rw [Table.ofList_map, Table.ofList_map]
  rfl

theorem ofJson_eq (h : WellTyped document) : ofJson document = .ok (metadata document) := by
  obtain ⟨fields, hv, -⟩ := h.exists_resolve
  have hresolve : document.optional "resolve" .null = .ok (.obj fields) := by
    rw [Json.optional_eq _ h, hv]
    rfl
  have hread : readDocument document (.obj fields) = .ok (metadata document) := by
    rw [← readDocument_eq h, Declared.resolve, hv]
    rfl
  rw [ofJson, hresolve]
  show (readDocument document (.obj fields)).mapError Failure.fault = _
  rw [hread]
  rfl

-- ---------------------------------------------------------------------------
-- Looking up
-- ---------------------------------------------------------------------------

theorem entry?_eq (document : Json) (id : String) :
    entry? (metadata document) (.str id) =
      (Declared.last? (Declared.packages document) id).map Declared.entry := by
  rw [← Declared.find?_listed]
  exact List.find?_map

theorem nodeOf_eq (document : Json) (id : String) :
    (metadata document).nodeOf (.str id) =
      (Declared.last? (Declared.nodes document) id).getD (.obj []) := by
  have hfind : ((metadata document).nodes.find? fun node => sameKey node.key (.str id)) =
      (Declared.last? (Declared.nodes document) id).map Declared.node := by
    rw [← Declared.find?_listed]
    exact List.find?_map
  rw [nodeOf, hfind]
  cases Declared.last? (Declared.nodes document) id <;> rfl

theorem packageId_ok (h : Declared.identity? document id = some p) :
    (metadata document).packageId (.str id) = .ok p := by
  obtain ⟨d, hd, rfl⟩ := Option.map_eq_some_iff.mp h
  have hentry := entry?_eq document id
  rw [hd, Option.map_some] at hentry
  simp only [packageId, Json.asKey, Except.mapError, bind, Except.bind, hentry]
  rfl

theorem packageId_dangling (h : Declared.identity? document id = none) :
    (metadata document).packageId (.str id) = .error (.audit (.metadata (.unknownId id))) := by
  have hentry := entry?_eq document id
  rw [Option.map_eq_none_iff.mp h, Option.map_none] at hentry
  simp only [packageId, Json.asKey, Except.mapError, bind, Except.bind, hentry]
  rfl

theorem reprId_of_identity? (h : Declared.identity? document id = some p) : p.reprId = id := by
  obtain ⟨d, hd, rfl⟩ := Option.map_eq_some_iff.mp h
  exact (Declared.mem_of_last? hd).2

theorem identity?_of_mem (h : e ∈ (metadata document).packages) :
    Declared.identity? document e.id.reprId = some e.id := by
  obtain ⟨d, hd, rfl⟩ := List.mem_map.mp h
  show Option.map _ (Declared.last? _ (d.textAt "id")) = _
  rw [Declared.last?_of_mem_listed hd]
  rfl

theorem mem_of_packageId_ok {metadata : Metadata} {key : Json} {id : PackageId}
    (h : metadata.packageId key = .ok id) :
    id ∈ metadata.packages.map (·.id) := by
  obtain ⟨key, -, h⟩ := of_bind_ok h
  cases hentry : entry? metadata key with
  | none =>
    rw [hentry] at h
    cases h
  | some entry =>
    rw [hentry] at h
    cases h
    exact List.mem_map_of_mem (List.mem_of_find?_eq_some hentry)

/-- The root is a listed package, however it is picked. -/
theorem mem_of_findRoot_ok {metadata : Metadata} {root : PackageId} {spec : Option String}
    (h : metadata.findRoot spec = .ok root) :
    root ∈ metadata.packages.map (·.id) := by
  cases spec with
  | none =>
    rw [findRoot] at h
    split at h
    · cases h
    · exact mem_of_packageId_ok h
  | some spec =>
    simp only [findRoot] at h
    split at h
    · cases h
    · rename_i id hfilter
      cases h
      exact (List.mem_filter.mp (hfilter ▸ List.mem_singleton_self root)).1
    · cases h

theorem identity?_of_findRoot {root : PackageId}
    (h : (metadata document).findRoot spec = .ok root) :
    Declared.identity? document root.reprId = some root := by
  obtain ⟨entry, he, rfl⟩ := List.mem_map.mp (mem_of_findRoot_ok h)
  exact identity?_of_mem he

theorem mem_of_identity? (h : Declared.identity? document id = some p) :
    id ∈ (metadata document).packages.map (·.id.reprId) := by
  obtain ⟨d, hd, -⟩ := Option.map_eq_some_iff.mp h
  have hid := (Declared.mem_of_last? hd).2
  rw [← Declared.find?_listed] at hd
  refine List.mem_map.mpr ⟨Declared.entry d, ?_, hid⟩
  exact List.mem_map_of_mem (List.mem_of_find?_eq_some hd)

end Metadata

end UnsafeAudit
