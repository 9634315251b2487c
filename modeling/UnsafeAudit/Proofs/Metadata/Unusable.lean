import UnsafeAudit.Metadata.Load
import UnsafeAudit.Proofs.FileSystem.Lookup
import UnsafeAudit.Proofs.Metadata.Shapes

/-!
# Metadata that cannot be used

Reading metadata from a file fails with an error about metadata, but for three
kinds of faults that nothing answers for (`ofFile_failures`): the bytes are no
text, the document is no object, or a package has all that it needs and not as
texts. Every other fault of a document is reported where its text is read.
-/

namespace UnsafeAudit

namespace Checked

variable {c : Checked α}

theorem exists_seq_ok_iff {f : Checked (α → β)} :
    (∃ b, f <*> c = .ok b) ↔ (∃ g, f = .ok g) ∧ ∃ a, c = .ok a := by
  cases f <;> cases c <;> simp [Seq.seq, apply]

theorem exists_map_ok_iff {g : α → β} : (∃ b, g <$> c = .ok b) ↔ ∃ a, c = .ok a := by
  cases c <;> simp [Functor.map, map]

theorem exists_below_ok_iff {step : Step} : (∃ a, c.below step = .ok a) ↔ ∃ a, c = .ok a := by
  cases c <;> simp [below]

theorem exists_orFault_error (h : ¬ ∃ a, c = .ok a) :
    ∃ issues, c.orFault = .error (.invalid issues) := by
  cases c with
  | ok a => exact absurd ⟨a, rfl⟩ h
  | bad issues => exact ⟨issues, rfl⟩

end Checked

namespace Json

namespace Shape

def any : Shape := fun _ => true

def key : Shape
  | .arr _ | .obj _ => false
  | _ => true

def object : Shape
  | .obj _ => true
  | _ => false

/-- A value that stands for nothing may be of any type. -/
def orFalsy (shape : Shape) : Shape := fun value => !value.isTruthy || shape value

end Shape

variable {needed optional : List (String × Shape)} {value v : Json} {name : String} {fault : Fault}

theorem record_iff : Shape.record needed optional value ↔ Shape.object value ∧
    (∀ p ∈ needed, ∃ v, value.field? p.1 = some v ∧ p.2 v) ∧
    ∀ p ∈ optional, ∀ v, value.field? p.1 = some v → p.2 v := by
  cases value with
  | obj fields => simp [Shape.record, Shape.object, field?, Option.any_eq_true, Option.all_eq_true]
  | _ => simp [Shape.record, Shape.object]

theorem needed_eq_ok_iff : value.needed name = .ok v ↔ value.field? name = some v := by
  cases value with
  | obj fields =>
    rw [Json.needed, field?]
    cases fields.lookup name <;> simp
  | _ => simp [Json.needed, field?]

theorem object_of_field (h : value.field? name = some v) : Shape.object value := by
  cases value <;> first | rfl | cases h

end Json

namespace Metadata

open Json (Shape)
open Json.Shape

variable {document resolve description value name version source reprId : Json} {fault : Fault}

/-- A package with all that is needed to identify it, of whatever type. -/
def completeShape : Shape := record [("id", key), ("name", any), ("version", any)] []

def identityShape : Shape :=
  record [("id", text), ("name", text), ("version", text)] [("source", orNull text)]

def headShape : Shape :=
  record [("resolve", object)] [("workspace_root", text), ("target_directory", orFalsy text)]

/-- The faults that become errors about metadata where a text is read. -/
inductive Reported : Fault → Prop
  | missingKey (shown) : Reported (.missingKey shown)
  | wrongType : Reported .wrongType

/-- The faults of a document that nothing answers for. The document is no object, or the first
package that cannot be read has all that is needed to identify it, but not as texts. -/
inductive Unanswered (document : Json) : Fault → Prop
  | noObject : object document = false → Unanswered document .noAttribute
  | misidentified {before bad after issues} : headShape document →
    document.itemsAt "packages" = before ++ bad :: after →
    (∀ package ∈ before, identityShape package) → completeShape bad → ¬ identityShape bad →
    readPackage bad = .error (.invalid issues) → Unanswered document (.invalid issues)

-- ---------------------------------------------------------------------------
-- Reading parts
-- ---------------------------------------------------------------------------

theorem reported_of_needed {name : String} (h : value.needed name = .error fault) :
    Reported fault := by
  cases value with
  | obj fields =>
    rw [Json.needed] at h
    cases hv : fields.lookup name with
    | none => rw [hv] at h; cases h; exact .missingKey _
    | some v => rw [hv] at h; cases h
  | _ => cases h; exact .wrongType

theorem asKey_eq_ok_iff {v : Json} : value.asKey = .ok v ↔ key value ∧ v = value := by
  cases value <;> simp [Json.asKey, key, eq_comm]

theorem reported_of_asKey (h : value.asKey = .error fault) : Reported fault := by
  cases value <;> cases h <;> exact .wrongType

theorem reported_of_asPath (h : value.asPath = .error fault) : Reported fault := by
  cases value <;> cases h <;> exact .wrongType

theorem reported_of_parts (h : value.parts = .error fault) : Reported fault := by
  cases value <;> cases h <;> exact .wrongType

theorem string_ok_iff : (∃ s, Decode.string value = .ok s) ↔ text value := by
  cases value <;> simp [Decode.string, text, Checked.issue]

theorem nullable_string_ok_iff :
    (∃ s, Decode.nullable Decode.string value = .ok s) ↔ orNull text value := by
  cases value <;> simp [Decode.nullable, Decode.string, orNull, text, Checked.issue, Checked.map]

-- ---------------------------------------------------------------------------
-- Packages
-- ---------------------------------------------------------------------------

def readIdentity (name version source reprId : Json) : Checked PackageId :=
  PackageId.ofJson (.obj [("name", name), ("version", version), ("source", source),
    ("repr_id", reprId)])

theorem readIdentity_ok_iff : (∃ id, readIdentity name version source reprId = .ok id) ↔
    text name ∧ text version ∧ orNull text source ∧ text reprId := by
  show (∃ id, PackageId.mk <$> (Decode.string name).below _ <*> (Decode.string version).below _ <*>
    (Decode.nullable Decode.string source).below _ <*> (Decode.string reprId).below _ = .ok id) ↔ _
  simp only [Checked.exists_seq_ok_iff, Checked.exists_map_ok_iff, Checked.exists_below_ok_iff,
    string_ok_iff, nullable_string_ok_iff, and_assoc]

theorem completeShape_iff : completeShape description ↔ ∃ id name version,
    description.field? "id" = some id ∧ key id ∧ description.field? "name" = some name ∧
      description.field? "version" = some version := by
  rw [completeShape, Json.record_iff]
  constructor
  · rintro ⟨-, hneeded, -⟩
    obtain ⟨id, hid, hkey⟩ := hneeded ("id", key) (by simp)
    obtain ⟨name, hname, -⟩ := hneeded ("name", any) (by simp)
    obtain ⟨version, hversion, -⟩ := hneeded ("version", any) (by simp)
    exact ⟨id, name, version, hid, hkey, hname, hversion⟩
  · rintro ⟨id, name, version, hid, hkey, hname, hversion⟩
    exact ⟨Json.object_of_field hid, by simp [hid, hkey, hname, hversion, any], by simp⟩

/-- An identity is made of texts, apart from a source that may not be given. -/
theorem identityShape_iff {id name version : Json} (hid : description.field? "id" = some id)
    (hname : description.field? "name" = some name)
    (hversion : description.field? "version" = some version) : identityShape description ↔
      text name ∧ text version ∧ orNull text ((description.field? "source").getD .null) ∧
        text id := by
  have hsource : (∀ v, description.field? "source" = some v → orNull text v) ↔
      orNull text ((description.field? "source").getD .null) := by
    cases description.field? "source" <;> simp [orNull]
  rw [identityShape, Json.record_iff]
  simp only [Json.object_of_field hid, List.forall_mem_cons, List.not_mem_nil, false_imp_iff,
    implies_true, hid, hname, hversion, hsource, Option.some.injEq, exists_eq_left', and_true,
    true_and]
  exact ⟨fun ⟨⟨hi, hn, hv⟩, hs⟩ => ⟨hn, hv, hs, hi⟩, fun ⟨hn, hv, hs, hi⟩ => ⟨⟨hi, hn, hv⟩, hs⟩⟩

theorem readPackage_eq_identity {id name version : Json} (hid : description.field? "id" = some id)
    (hkey : key id) (hname : description.field? "name" = some name)
    (hversion : description.field? "version" = some version) :
    readPackage description =
      (readIdentity name version ((description.field? "source").getD .null) id).orFault.map
        fun id => ⟨id, description⟩ := by
  have hsource : description.optional "source" .null =
      .ok ((description.field? "source").getD .null) := by
    cases description with
    | obj fields => rfl
    | _ => cases hid
  rw [readPackage, Json.needed_eq_ok_iff.mpr hid, Json.needed_eq_ok_iff.mpr hname,
    Json.needed_eq_ok_iff.mpr hversion, hsource]
  show (id.asKey >>= fun _ => _) = _
  rw [asKey_eq_ok_iff.mpr ⟨hkey, rfl⟩]
  rfl

theorem completeShape_or_reported (description : Json) : completeShape description ∨
    ∃ fault, Reported fault ∧ readPackage description = .error fault := by
  rw [readPackage]
  cases hid : description.needed "id" with
  | error fault => exact .inr ⟨fault, reported_of_needed hid, rfl⟩
  | ok id =>
    cases hkey : id.asKey with
    | error fault => exact .inr ⟨fault, reported_of_asKey hkey, by simp [bind, Except.bind, hkey]⟩
    | ok key =>
      cases hname : description.needed "name" with
      | error fault =>
        exact .inr ⟨fault, reported_of_needed hname, by simp [bind, Except.bind, hkey]⟩
      | ok name =>
        cases hversion : description.needed "version" with
        | error fault =>
          exact .inr ⟨fault, reported_of_needed hversion, by simp [bind, Except.bind, hkey]⟩
        | ok version =>
          exact .inl (completeShape_iff.mpr ⟨id, name, version, Json.needed_eq_ok_iff.mp hid,
            (asKey_eq_ok_iff.mp hkey).1, Json.needed_eq_ok_iff.mp hname,
            Json.needed_eq_ok_iff.mp hversion⟩)

theorem completeShape_of_identityShape (h : identityShape description) :
    completeShape description := by
  obtain ⟨hobject, hneeded, -⟩ := Json.record_iff.mp h
  simp only [List.forall_mem_cons] at hneeded
  obtain ⟨⟨id, hid, htext⟩, ⟨name, hname, -⟩, ⟨version, hversion, -⟩, -⟩ := hneeded
  obtain ⟨s, rfl⟩ := Json.exists_text htext
  exact completeShape_iff.mpr ⟨_, name, version, hid, rfl, hname, hversion⟩

/-- A package is identified, or it has all that a package needs but not as texts, or what it
lacks is reported. -/
theorem readPackage_outcome (description : Json) :
    identityShape description ∧ (∃ entry, readPackage description = .ok entry) ∨
    completeShape description ∧ ¬ identityShape description ∧
      (∃ issues, readPackage description = .error (.invalid issues)) ∨
    ¬ completeShape description ∧
      ∃ fault, Reported fault ∧ readPackage description = .error fault := by
  by_cases hcomplete : completeShape description
  · obtain ⟨id, name, version, hid, hkey, hname, hversion⟩ := completeShape_iff.mp hcomplete
    rw [readPackage_eq_identity hid hkey hname hversion, identityShape_iff hid hname hversion,
      ← readIdentity_ok_iff]
    by_cases hok : ∃ identity,
        readIdentity name version ((description.field? "source").getD .null) id = .ok identity
    · obtain ⟨identity, hidentity⟩ := hok
      exact .inl ⟨⟨identity, hidentity⟩, ⟨identity, description⟩, by rw [hidentity]; rfl⟩
    · obtain ⟨issues, hissues⟩ := Checked.exists_orFault_error hok
      exact .inr (.inl ⟨hcomplete, hok, issues, by rw [hissues]; rfl⟩)
  · exact .inr (.inr ⟨hcomplete, (completeShape_or_reported description).resolve_left hcomplete⟩)

theorem exists_readPackage_ok_iff : (∃ entry, readPackage description = .ok entry) ↔
    identityShape description := by
  rcases readPackage_outcome description with
    ⟨hidentity, hok⟩ | ⟨-, hnot, issues, herror⟩ | ⟨hnot, fault, -, herror⟩
  · exact iff_of_true hok hidentity
  · exact iff_of_false (by rw [herror]; nofun) hnot
  · exact iff_of_false (by rw [herror]; nofun) (hnot ∘ completeShape_of_identityShape)

theorem of_readPackage_error (h : readPackage description = .error fault) : Reported fault ∨
    completeShape description ∧ ¬ identityShape description ∧
      ∃ issues, fault = .invalid issues := by
  rcases readPackage_outcome description with
    ⟨-, entry, hok⟩ | ⟨hcomplete, hnot, issues, herror⟩ | ⟨-, other, hreported, herror⟩
  · cases hok.symm.trans h
  · cases herror.symm.trans h
    exact .inr ⟨hcomplete, hnot, issues, rfl⟩
  · cases herror.symm.trans h
    exact .inl hreported

theorem reported_of_readNode (h : readNode description = .error fault) : Reported fault := by
  rw [readNode] at h
  rcases bind_eq_error_iff.mp h with h | ⟨id, -, h⟩
  · exact reported_of_needed h
  rcases bind_eq_error_iff.mp h with h | ⟨_, -, h⟩
  · exact reported_of_asKey h
  · cases h

-- ---------------------------------------------------------------------------
-- Documents
-- ---------------------------------------------------------------------------

theorem optional_eq_of_object {value : Json} (h : object value) (name : String) (default : Json) :
    value.optional name default = .ok ((value.field? name).getD default) := by
  cases value <;> first | rfl | cases h

theorem asPath_ok_iff : (∃ path, value.asPath = .ok path) ↔ text value := by
  cases value <;> simp [Json.asPath, text]

theorem readTargetDirectory_ok_iff {workspaceRoot : Path} (h : object document) :
    (∃ path, readTargetDirectory document workspaceRoot = .ok path) ↔
      orFalsy text ((document.field? "target_directory").getD .null) := by
  rw [readTargetDirectory, optional_eq_of_object h]
  generalize (document.field? "target_directory").getD .null = directory
  show (∃ path, (if directory.isTruthy then directory.asPath else _) = .ok path) ↔ _
  rw [orFalsy]
  cases directory.isTruthy
  · simp [pure, Except.pure]
  · simpa using asPath_ok_iff

theorem reported_of_readTargetDirectory {workspaceRoot : Path} (hobject : object document)
    (h : readTargetDirectory document workspaceRoot = .error fault) : Reported fault := by
  rw [readTargetDirectory, optional_eq_of_object hobject] at h
  change (if _ then _ else _) = _ at h
  split at h
  · exact reported_of_asPath h
  · cases h

theorem headShape_iff : headShape document ↔ object document ∧
    (∃ resolve, document.field? "resolve" = some resolve ∧ object resolve) ∧
    text ((document.field? "workspace_root").getD (.str ".")) ∧
    orFalsy text ((document.field? "target_directory").getD .null) := by
  have hroot : (∀ v, document.field? "workspace_root" = some v → text v) ↔
      text ((document.field? "workspace_root").getD (.str ".")) := by
    cases document.field? "workspace_root" <;> simp [text]
  have hdirectory : (∀ v, document.field? "target_directory" = some v → orFalsy text v) ↔
      orFalsy text ((document.field? "target_directory").getD .null) := by
    cases document.field? "target_directory" <;> simp [orFalsy, Json.isTruthy]
  rw [headShape, Json.record_iff]
  simp only [List.forall_mem_cons, List.not_mem_nil, false_imp_iff, implies_true, and_true, hroot,
    hdirectory]

/-- What is gone through as the packages of a document are the items of a list, or texts. -/
theorem parts_packages {items : List Json}
    (h : ((document.field? "packages").getD (.arr [])).parts = .ok items) :
    items = document.itemsAt "packages" ∨ ∀ item ∈ items, text item := by
  rw [Json.itemsAt]
  cases hv : document.field? "packages" with
  | none =>
    rw [hv] at h
    cases h
    exact .inl rfl
  | some v =>
    rw [hv] at h
    cases v with
    | arr => cases h; exact .inl rfl
    | str s =>
      cases h
      exact .inr fun item hitem => by obtain ⟨_, -, rfl⟩ := List.mem_map.mp hitem; rfl
    | obj fields =>
      cases h
      exact .inr fun item hitem => by obtain ⟨_, -, rfl⟩ := List.mem_map.mp hitem; rfl
    | _ => cases h

theorem of_readPackages_error {items : List Json}
    (hitems : ((document.field? "packages").getD (.arr [])).parts = .ok items)
    (h : items.mapM readPackage = .error fault) : Reported fault ∨
    ∃ before bad after, document.itemsAt "packages" = before ++ bad :: after ∧
      (∀ package ∈ before, identityShape package) ∧ completeShape bad ∧ ¬ identityShape bad ∧
      readPackage bad = .error fault := by
  obtain ⟨before, bad, after, rfl, hbad, hbefore⟩ := mapM_eq_error_iff_split.mp h
  rcases of_readPackage_error hbad with hreported | ⟨hcomplete, hnot, -⟩
  · exact .inl hreported
  · refine .inr ⟨before, bad, after, ?_, fun p hp => exists_readPackage_ok_iff.mp (hbefore p hp),
      hcomplete, hnot, hbad⟩
    refine ((parts_packages hitems).resolve_right fun htexts => ?_).symm
    obtain ⟨s, rfl⟩ := Json.exists_text (htexts bad (by simp))
    cases hcomplete

theorem readDocument_eq_of_object {resolve : Json} (hdocument : object document)
    (hresolve : object resolve) : readDocument document resolve = do
      let workspaceRoot ← ((document.field? "workspace_root").getD (.str ".")).asPath
      let targetDirectory ← readTargetDirectory document workspaceRoot
      let items ← ((document.field? "packages").getD (.arr [])).parts
      let packages ← items.mapM readPackage
      let nodes ← (← ((resolve.field? "nodes").getD (.arr [])).parts).mapM readNode
      return ⟨workspaceRoot, targetDirectory, (resolve.field? "root").getD .null,
        Table.ofList (fun a b => a.id.reprId = b.id.reprId) packages,
        Table.ofList (fun a b => sameKey a.key b.key) nodes⟩ := by
  rw [readDocument, optional_eq_of_object hdocument, optional_eq_of_object hdocument,
    optional_eq_of_object hresolve, optional_eq_of_object hresolve]
  rfl

theorem of_readDocument_error {resolve : Json} (hresolve : document.field? "resolve" = some resolve)
    (hobject : object resolve) (h : readDocument document resolve = .error fault) :
    Reported fault ∨ Unanswered document fault := by
  have hdocument := Json.object_of_field hresolve
  rw [readDocument_eq_of_object hdocument hobject] at h
  rcases bind_eq_error_iff.mp h with h | ⟨root, hroot, h⟩
  · exact .inl (reported_of_asPath h)
  rcases bind_eq_error_iff.mp h with h | ⟨directory, hdirectory, h⟩
  · exact .inl (reported_of_readTargetDirectory hdocument h)
  rcases bind_eq_error_iff.mp h with h | ⟨items, hitems, h⟩
  · exact .inl (reported_of_parts h)
  rcases bind_eq_error_iff.mp h with h | ⟨packages, -, h⟩
  · have hhead : headShape document := headShape_iff.mpr ⟨hdocument, ⟨resolve, hresolve, hobject⟩,
      asPath_ok_iff.mp ⟨root, hroot⟩, (readTargetDirectory_ok_iff hdocument).mp ⟨_, hdirectory⟩⟩
    rcases of_readPackages_error hitems h with
      hreported | ⟨before, bad, after, hsplit, hbefore, hcomplete, hnot, hbad⟩
    · exact .inl hreported
    · obtain hreported | ⟨-, -, issues, rfl⟩ := of_readPackage_error hbad
      · exact .inl hreported
      · exact .inr (.misidentified hhead hsplit hbefore hcomplete hnot hbad)
  rcases bind_eq_error_iff.mp h with h | ⟨nodes, -, h⟩
  · exact .inl (reported_of_parts h)
  rcases bind_eq_error_iff.mp h with h | ⟨_, -, h⟩
  · obtain ⟨node, -, hnode⟩ := exists_of_mapM_error h
    exact .inl (reported_of_readNode hnode)
  · cases h

theorem readDocument_of_misidentified {before after : List Json} {bad resolve : Json}
    (hhead : headShape document) (hresolve : document.field? "resolve" = some resolve)
    (hsplit : document.itemsAt "packages" = before ++ bad :: after)
    (hbefore : ∀ package ∈ before, identityShape package)
    (hbad : readPackage bad = .error fault) : readDocument document resolve = .error fault := by
  obtain ⟨hdocument, ⟨_, hfound, hobject⟩, hroot, hdirectory⟩ := headShape_iff.mp hhead
  cases hresolve.symm.trans hfound
  obtain ⟨root, hroot⟩ := asPath_ok_iff.mpr hroot
  obtain ⟨directory, hdirectory⟩ := (readTargetDirectory_ok_iff hdocument).mpr hdirectory
  have hmem : bad ∈ document.itemsAt "packages" := by simp [hsplit]
  obtain ⟨items, hitems, -⟩ := Json.mem_itemsAt hmem
  rw [Json.itemsAt, hitems] at hsplit
  have hpackages : items.mapM readPackage = .error fault := mapM_eq_error_iff_split.mpr
    ⟨before, bad, after, hsplit, hbad, fun p hp => exists_readPackage_ok_iff.mpr (hbefore p hp)⟩
  rw [readDocument_eq_of_object hdocument hobject, hroot, hitems]
  show (readTargetDirectory document root >>= fun _ => _) = _
  rw [hdirectory]
  show (items.mapM readPackage >>= fun _ => _) = _
  rw [hpackages]
  rfl

-- ---------------------------------------------------------------------------
-- Texts and files
-- ---------------------------------------------------------------------------

variable {content : String} {path : Path} {fs : FileSystem}

theorem ofJson_of_noObject (h : object document = false) :
    ofJson document = .error (.fault .noAttribute) := by
  cases document <;> first | rfl | cases h

theorem ofJson_of_resolve {resolve : Json} (hresolve : document.field? "resolve" = some resolve)
    (hobject : object resolve) :
    ofJson document = (readDocument document resolve).mapError .fault := by
  rw [ofJson, optional_eq_of_object (Json.object_of_field hresolve), hresolve]
  cases resolve <;> first | rfl | cases hobject

theorem ofJson_of_noResolve (h : object document)
    (hresolve : object ((document.field? "resolve").getD .null) = false) :
    ofJson document = .error (.audit (.metadata .noResolve)) := by
  rw [ofJson, optional_eq_of_object h]
  generalize (document.field? "resolve").getD .null = resolve at hresolve
  cases resolve <;> first | rfl | cases hresolve

theorem ofJson_outcome (document : Json) : (∃ metadata, ofJson document = .ok metadata) ∨
    ofJson document = .error (.audit (.metadata .noResolve)) ∨
    ∃ fault, ofJson document = .error (.fault fault) ∧
      (Reported fault ∨ Unanswered document fault) := by
  cases hdocument : object document
  · exact .inr (.inr ⟨_, ofJson_of_noObject hdocument, .inr (.noObject hdocument)⟩)
  cases hobject : object ((document.field? "resolve").getD .null)
  · exact .inr (.inl (ofJson_of_noResolve hdocument hobject))
  cases hresolve : document.field? "resolve" with
  | none => rw [hresolve] at hobject; cases hobject
  | some resolve =>
    rw [hresolve] at hobject
    rw [ofJson_of_resolve hresolve hobject]
    cases hread : readDocument document resolve with
    | ok metadata => exact .inl ⟨metadata, rfl⟩
    | error fault => exact .inr (.inr ⟨fault, rfl, of_readDocument_error hresolve hobject hread⟩)

theorem ofJson_of_unanswered (h : Unanswered document fault) :
    ofJson document = .error (.fault fault) := by
  cases h with
  | noObject hdocument => exact ofJson_of_noObject hdocument
  | misidentified hhead hsplit hbefore hcomplete hnot hbad =>
    obtain ⟨-, ⟨resolve, hresolve, hobject⟩, -⟩ := headShape_iff.mp hhead
    rw [ofJson_of_resolve hresolve hobject,
      readDocument_of_misidentified hhead hresolve hsplit hbefore hbad]
    rfl

theorem textFailure_of_reported (h : Reported fault) :
    ∃ e, textFailure (.fault fault) = .audit (.metadata e) := by
  cases h <;> exact ⟨_, rfl⟩

theorem textFailure_of_unanswered (h : Unanswered document fault) :
    textFailure (.fault fault) = .fault fault := by
  cases h <;> rfl

theorem of_ofText_error {failure : Failure} (h : ofText content = .error failure) :
    (∃ e, failure = .audit (.metadata e)) ∨
    ∃ document fault, failure = .fault fault ∧ Json.read? content = some document ∧
      Unanswered document fault := by
  rw [ofText] at h
  cases hdocument : Json.read? content with
  | none =>
    rw [hdocument] at h
    cases h
    exact .inl ⟨_, rfl⟩
  | some document =>
    rw [hdocument] at h
    obtain ⟨cause, hcause, rfl⟩ := mapError_eq_error_iff.mp h
    rcases ofJson_outcome document with ⟨metadata, hok⟩ | hnone | ⟨fault, hfault, hreported | hnot⟩
    · cases hok.symm.trans hcause
    · cases hnone.symm.trans hcause
      exact .inl ⟨.noResolve, rfl⟩
    · cases hfault.symm.trans hcause
      exact .inl (textFailure_of_reported hreported)
    · cases hfault.symm.trans hcause
      exact .inr ⟨document, fault, textFailure_of_unanswered hnot, rfl, hnot⟩

theorem ofText_of_unanswered (hread : Json.read? content = some document)
    (h : Unanswered document fault) : ofText content = .error (.fault fault) := by
  rw [ofText, hread]
  show (ofJson document).mapError textFailure = _
  rw [ofJson_of_unanswered h, mapError_error, textFailure_of_unanswered h]

/-- The faults of a file that nothing answers for. Its bytes are no text, or they are that of a
document with such a fault. -/
inductive Escapes (fs : FileSystem) (path : Path) : Fault → Prop
  | undecodable {bytes m} : fs.readBytes path = .ok bytes → Text.Utf8.decode bytes = .error m →
    Escapes fs path (.undecodable m)
  | unanswered {content : String} {document : Json} {cause : Fault} :
    DepInfo.readText fs path = .ok content → Json.read? content = some document →
    Unanswered document cause → Escapes fs path cause

theorem of_ofFile_error {failure : Failure} (h : ofFile fs path = .error failure) :
    (∃ e, failure = .audit (.metadata e)) ∨
    ∃ fault, failure = .fault fault ∧ Escapes fs path fault := by
  rw [ofFile] at h
  cases hread : DepInfo.readText fs path with
  | ok content =>
    rw [hread] at h
    rcases of_ofText_error h with hreported | ⟨document, fault, rfl, hdocument, hnot⟩
    · exact .inl hreported
    · exact .inr ⟨fault, rfl, .unanswered hread hdocument hnot⟩
  | error cause =>
    rw [hread] at h
    rw [DepInfo.readText] at hread
    cases hbytes : fs.readBytes path with
    | error e =>
      rw [hbytes] at hread
      cases hread
      cases h
      exact .inl ⟨_, rfl⟩
    | ok bytes =>
      simp only [hbytes] at hread
      cases hdecode : Text.Utf8.decode bytes with
      | error m =>
        rw [hdecode] at hread
        cases hread
        cases h
        exact .inr ⟨_, rfl, .undecodable hbytes hdecode⟩
      | ok chars =>
        rw [hdecode] at hread
        cases hread

theorem ofFile_of_escapes (h : Escapes fs path fault) :
    ofFile fs path = .error (.fault fault) := by
  cases h with
  | @undecodable bytes m hbytes hdecode =>
    have hread : DepInfo.readText fs path = .error (.undecodable m) := by
      rw [DepInfo.readText, hbytes]
      simp only [hdecode]
    rw [ofFile, hread]
  | unanswered hread hdocument hnot =>
    rw [ofFile, hread]
    exact ofText_of_unanswered hdocument hnot

/-- Whatever a file holds, reading it fails with an error about metadata, or with a fault that
nothing answers for. The same holds of a text; a document alone shows faults that a text reports.
This is so within the limits of the reader of documents: of nesting and of digits there are none,
and a lone surrogate is read as another character. -/
theorem ofFile_failures (fs : FileSystem) (path : Path) :
    (∀ failure, ofFile fs path = .error failure → (∃ e, failure = .audit (.metadata e)) ∨
      ∃ fault, failure = .fault fault ∧ Escapes fs path fault) ∧
    (∀ fault, Escapes fs path fault → ofFile fs path = .error (.fault fault)) ∧
    (∀ content failure, ofText content = .error failure → (∃ e, failure = .audit (.metadata e)) ∨
      ∃ document fault, failure = .fault fault ∧ Json.read? content = some document ∧
        Unanswered document fault) ∧
    (∀ content document fault, Json.read? content = some document → Unanswered document fault →
      ofText content = .error (.fault fault)) ∧
    (∀ document, (∃ metadata, ofJson document = .ok metadata) ∨
      ofJson document = .error (.audit (.metadata .noResolve)) ∨
      ∃ fault, ofJson document = .error (.fault fault) ∧
        (Reported fault ∨ Unanswered document fault)) ∧
    ∀ document fault, Unanswered document fault → ofJson document = .error (.fault fault) :=
  ⟨fun _ => of_ofFile_error, fun _ => ofFile_of_escapes, fun _ _ => of_ofText_error,
    fun _ _ _ => ofText_of_unanswered, ofJson_outcome, fun _ _ => ofJson_of_unanswered⟩

def listFile : FileSystem := ⟨.cons "list.json" (.file [91, 93]) .nil, []⟩

/-- A list is read as a document, and what is wrong with it is not reported. -/
theorem ofFile_list_unanswered :
    ofFile listFile (.atRoot ["list.json"]) = .error (.fault .noAttribute) := by
  have hstat : listFile.stat (.atRoot ["list.json"]) = .ok (.file [91, 93]) :=
    FileSystem.stat_atRoot (by decide) rfl (by decide) (Node.file_ne_link _)
  have hdecode : Text.Utf8.decode [91, 93] = .ok ['[', ']'] := rfl
  have hread : DepInfo.readText listFile (.atRoot ["list.json"]) = .ok "[]" := by
    rw [DepInfo.readText, FileSystem.readBytes, hstat]
    simp only [hdecode]
    rfl
  rw [ofFile, hread]
  rfl

end Metadata

end UnsafeAudit
