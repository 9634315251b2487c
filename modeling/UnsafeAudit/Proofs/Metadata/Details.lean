import UnsafeAudit.Proofs.Metadata.Assembly
import UnsafeAudit.Proofs.Metadata.Loading

/-!
# Packages of well-typed documents

The details of a listed package are read without a fault (`package_ok`). The
kind of a target is the one that its listed kinds and crate types give it.
-/

namespace UnsafeAudit

variable {document : Json} {id : String}

namespace TargetKind

/-- The kinds that outrank those of libraries, from the first on. -/
def words : List String := ["custom-build", "example", "bin", "test", "bench"]

/-- As long as one of `words` is listed, nothing else that is listed plays a part. -/
theorem ofListed?_filter_words (kinds types : List String) (h : words.filter (· ∈ kinds) ≠ []) :
    ofListed? (words.filter (· ∈ kinds)) types = ofListed? kinds types := by
  have hmem : ∀ w ∈ words, (w ∈ words.filter (· ∈ kinds) ↔ w ∈ kinds) := by
    intro w hw
    simp [hw]
  have hany : ∃ w ∈ words, w ∈ kinds := by
    obtain ⟨w, hw⟩ := List.exists_mem_of_ne_nil _ h
    exact ⟨w, by simpa using hw⟩
  unfold ofListed?
  simp only [hmem _ (by decide : "custom-build" ∈ words), hmem _ (by decide : "example" ∈ words),
    hmem _ (by decide : "bin" ∈ words), hmem _ (by decide : "test" ∈ words),
    hmem _ (by decide : "bench" ∈ words)]
  simp only [words, List.mem_cons, exists_eq_or_imp, List.not_mem_nil, or_false,
    exists_eq_left] at hany
  split_ifs <;> simp_all

end TargetKind

namespace Metadata

open Declared (metadata WellTyped)

theorem hasWord_texts (kinds : List String) (word : String) :
    hasWord (.arr (kinds.map .str)) word = .ok (decide (word ∈ kinds)) := by
  rw [hasWord]
  congr 1
  rw [Bool.eq_iff_iff]
  simp [Json.text?]

theorem hasLibraryKind_texts (kinds : List String) :
    hasLibraryKind (.arr (kinds.map .str)) =
      .ok (TargetKind.libraryKinds.any (· ∈ kinds)) := by
  have hkeys : (kinds.map Json.str).mapM (·.asKey) = .ok ((kinds.map Json.str).map id) :=
    mapM_ok fun key hkey => by
      obtain ⟨s, -, rfl⟩ := List.mem_map.mp hkey
      rfl
  show ((kinds.map Json.str).mapM (·.asKey) >>= fun _ => _) = _
  rw [hkeys]
  refine congrArg Except.ok ?_
  rw [Bool.eq_iff_iff]
  simp [Json.text?, and_comm]

theorem crateTypes_texts (types : List String) :
    crateTypes (.arr (types.map .str)) = .ok types := by
  cases types with
  | nil => rfl
  | cons first rest =>
    have htexts : ((first :: rest).map Json.str).map (fun type => type.text?.getD "") =
        first :: rest := by
      simp [Json.text?, Function.comp_def]
    exact congrArg Except.ok htexts

theorem targetKind_texts (kinds types : List String) :
    targetKind (.arr (kinds.map .str)) (.arr (types.map .str)) =
      .ok (TargetKind.ofListed? kinds types) := by
  have hwords : TargetKind.words.filterM (hasWord (.arr (kinds.map .str))) =
      .ok (TargetKind.words.filter (· ∈ kinds)) :=
    filterM_ok fun word _ => hasWord_texts kinds word
  show (TargetKind.words.filterM (hasWord (.arr (kinds.map .str))) >>= fun _ => _) = _
  rw [hwords]
  by_cases hnone : TargetKind.words.filter (· ∈ kinds) = []
  · have hno : ∀ word ∈ TargetKind.words, word ∉ kinds := by
      simpa using List.filter_eq_nil_iff.mp hnone
    rw [hnone]
    show (hasLibraryKind (.arr (kinds.map .str)) >>= fun _ => _) = _
    rw [hasLibraryKind_texts, TargetKind.ofListed?, if_neg (hno _ (by decide)),
      if_neg (hno _ (by decide)), if_neg (hno _ (by decide)), if_neg (hno _ (by decide)),
      if_neg (hno _ (by decide))]
    cases TargetKind.libraryKinds.any (· ∈ kinds) <;> rfl
  · rw [← TargetKind.ofListed?_filter_words kinds types hnone]
    generalize TargetKind.words.filter (· ∈ kinds) = words at hnone
    show (if words.isEmpty = true then _ else if _ then _ else _) = _
    rw [if_neg (by simpa using hnone)]
    split
    · rw [crateTypes_texts]
      rfl
    · rename_i hother
      -- without an example the crate types play no part
      refine congrArg Except.ok ?_
      unfold TargetKind.ofListed?
      split
      · rfl
      · rw [if_neg (by simp_all)]
        simp_all

theorem readTarget_eq (h : Declared.targetShape target) :
    readTarget target = .ok (Declared.target? target) := by
  unfold readTarget
  rw [Json.optional_list "kind" h rfl, Json.optional_list "crate_types" h rfl,
    Json.itemsAt_eq_texts "kind" h rfl, Json.itemsAt_eq_texts "crate_types" h rfl]
  show (targetKind (.arr _) (.arr _) >>= fun _ => _) = _
  rw [targetKind_texts, Declared.target?]
  cases TargetKind.ofListed? (target.textsAt "kind") (target.textsAt "crate_types") with
  | none => rfl
  | some kind =>
    show (target.needed "name" >>= fun _ => target.needed "src_path" >>= fun _ => _) = _
    rw [Json.needed_text "name" h rfl, Json.needed_text "src_path" h rfl]
    rfl

theorem features_eq (h : WellTyped document) (id : String) :
    ((metadata document).nodeOf (.str id)).optional "features" (.arr []) =
      .ok (.arr ((Declared.features document id).map .str)) := by
  rw [nodeOf_eq, Declared.features]
  cases hnode : Declared.last? (Declared.nodes document) id with
  | none => rfl
  | some node =>
    have hshape := h.node node (Declared.mem_of_last? hnode).1
    rw [Option.getD_some, Json.optional_list "features" hshape rfl,
      Json.itemsAt_eq_texts "features" hshape rfl]

theorem itemsFrom_texts (position : Nat) (texts : List String) :
    Decode.itemsFrom Decode.string position (texts.map .str) = .ok texts := by
  induction texts generalizing position with
  | nil => rfl
  | cons text rest ih =>
    rw [List.map_cons, Decode.itemsFrom, ih]
    rfl

theorem required_nullable_text {fields : Decode.Fields} {text? : Option String}
    (h : fields.lookup name = some (.ofOption .str text?)) :
    Decode.required name (Decode.nullable Decode.string) fields = .ok text? := by
  rw [Decode.required, h]
  cases text? <;> rfl

theorem required_texts {fields : Decode.Fields} {texts : List String}
    (h : fields.lookup name = some (.arr (texts.map .str))) :
    Decode.required name (Decode.list Decode.string) fields = .ok texts := by
  rw [Decode.required, h]
  show (Decode.itemsFrom Decode.string 0 (texts.map .str)).below _ = _
  rw [itemsFrom_texts]
  rfl

theorem package_of_last? (h : WellTyped document)
    (hd : Declared.last? (Declared.packages document) id = some description) :
    (metadata document).package (.str id) = .ok (Declared.packageOf document description) := by
  obtain ⟨hmem, rfl⟩ := Declared.mem_of_last? hd
  have hshape := h.package description hmem
  have hread : (description.itemsAt "targets").filterMapM readTarget =
      .ok ((description.itemsAt "targets").filterMap Declared.target?) :=
    filterMapM_ok fun target ht =>
      readTarget_eq (Json.shape_of_mem_itemsAt "targets" hshape rfl target ht)
  unfold package
  rw [entry?_eq, hd, Option.map_some]
  show (description.optional "targets" (.arr []) >>= fun _ => _) = _
  rw [Json.optional_list "targets" hshape rfl]
  show ((description.itemsAt "targets").filterMapM readTarget >>= fun _ => _) = _
  rw [hread]
  show (description.needed "manifest_path" >>= fun _ => _ >>= fun _ =>
    description.optional "license" .null >>= fun _ =>
      description.optional "repository" .null >>= fun _ =>
        ((metadata document).nodeOf _).optional "features" (.arr []) >>= fun _ => _) = _
  rw [Json.needed_text "manifest_path" hshape rfl,
    Json.optional_text_orNull "license" hshape rfl,
    Json.optional_text_orNull "repository" hshape rfl, features_eq h]
  show Checked.orFault (_ <$> Decode.required "license" _ _ <*> Decode.required "repository" _ _ <*>
    Decode.required "features" _ _) = _
  rw [required_nullable_text rfl, required_nullable_text rfl, required_texts rfl]
  rfl

theorem package_ok {package : Package} (h : WellTyped document)
    (hp : Declared.package? document id = some package) :
    (metadata document).package (.str id) = .ok package := by
  obtain ⟨description, hd, rfl⟩ := Option.map_eq_some_iff.mp hp
  exact package_of_last? h hd

end Metadata

namespace Declared

variable {package : Package}

theorem identity?_eq (document : Json) (id : String) :
    identity? document id = (package? document id).map (·.id) := by
  rw [identity?, package?, Option.map_map]
  rfl

theorem identity?_of_package? (h : package? document id = some package) :
    identity? document id = some package.id := by
  rw [identity?_eq, h]
  rfl

theorem exists_package? (h : identity? document id = some p) :
    ∃ package, package? document id = some package ∧ package.id = p := by
  rw [identity?_eq] at h
  exact Option.map_eq_some_iff.mp h

theorem reprId_of_package? (h : package? document id = some package) : package.id.reprId = id :=
  Metadata.reprId_of_identity? (identity?_of_package? h)

-- ---------------------------------------------------------------------------
-- Lists of packages
-- ---------------------------------------------------------------------------

variable {packages : List Package} {ids : List String}

/-- Each of some packages is what the document declares under its id. -/
def Holds (document : Json) (packages : List Package) : Prop :=
  ∀ package ∈ packages, package? document package.id.reprId = some package

theorem Holds.mem_ids_iff (h : Holds document packages) {package : Package}
    (hp : package? document id = some package) :
    id ∈ packages.map (·.id.reprId) ↔ ∃ p ∈ packages, p.id = package.id := by
  rw [List.mem_map]
  constructor
  · rintro ⟨other, ho, rfl⟩
    rw [h other ho] at hp
    exact ⟨other, ho, congrArg _ (Option.some.inj hp)⟩
  · rintro ⟨other, ho, heq⟩
    exact ⟨other, ho, heq ▸ reprId_of_package? hp⟩

theorem holds_of_map_some (h : packages.map some = ids.map (package? document)) :
    Holds document packages := by
  intro package hp
  obtain ⟨id, -, hid⟩ := List.mem_map.mp (h ▸ List.mem_map_of_mem hp)
  rw [reprId_of_package? hid, hid]

theorem map_reprId_of_map_some (h : packages.map some = ids.map (package? document)) :
    packages.map (·.id.reprId) = ids := by
  induction packages generalizing ids with
  | nil => simpa using h.symm
  | cons package rest ih =>
    cases ids with
    | nil => cases h
    | cons id ids =>
      obtain ⟨hid, hrest⟩ := List.cons.inj h
      rw [List.map_cons, reprId_of_package? hid.symm, ih hrest]

theorem nodup_of_map_some (h : packages.map some = ids.map (package? document))
    (hn : ids.Nodup) : (packages.map (·.id)).Nodup := by
  refine List.Nodup.of_map (·.reprId) ?_
  rw [List.map_map]
  exact map_reprId_of_map_some h ▸ hn

theorem contains_iff {graph : DependencyGraph} {p : PackageId}
    (h : graph.packages.map some = ids.map (package? document)) :
    graph.contains p ↔ identity? document p.reprId = some p ∧ p.reprId ∈ ids := by
  have hids := map_reprId_of_map_some h
  constructor
  · intro hp
    obtain ⟨package, hmem, rfl⟩ := List.mem_map.mp (DependencyGraph.contains_iff.mp hp)
    refine ⟨identity?_of_package? (holds_of_map_some h package hmem), ?_⟩
    rw [← hids]
    exact List.mem_map_of_mem (f := (·.id.reprId)) hmem
  · rintro ⟨hid, hp⟩
    obtain ⟨package, hpackage, heq⟩ := exists_package? hid
    have hmem := ((holds_of_map_some h).mem_ids_iff hpackage).mp (hids ▸ hp)
    exact DependencyGraph.contains_iff.mpr (heq ▸ List.mem_map.mpr hmem)

end Declared

end UnsafeAudit
