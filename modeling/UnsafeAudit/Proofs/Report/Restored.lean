import UnsafeAudit.Proofs.Json.Decoded
import UnsafeAudit.Proofs.Report.Timestamps
import UnsafeAudit.Report.Basic

/-!
# Reading back reports

A report comes back from its text as it was, each line of its tree as a line of
the same kind (`AuditReport.ofJsonAt_written`). A record comes back from its object
because each of its fields does.
-/

namespace UnsafeAudit

open Decode

-- ---------------------------------------------------------------------------
-- Words
-- ---------------------------------------------------------------------------

theorem Verdict.ofWord?_word (verdict : Verdict) : ofWord? verdict.word = some verdict := by
  cases verdict <;> rfl

theorem SafetySymbol.ofWord?_word (symbol : SafetySymbol) : ofWord? symbol.word = some symbol := by
  cases symbol <;> rfl

theorem DependencyKind.ofWord?_word (kind : DependencyKind) : ofWord? kind.word = some kind := by
  cases kind <;> rfl

theorem ScanMode.ofWord?_word (mode : ScanMode) : ofWord? mode.word = some mode := by
  cases mode <;> rfl

-- ---------------------------------------------------------------------------
-- Packages and their summaries
-- ---------------------------------------------------------------------------

namespace PackageId

theorem ofJson_toJson (id : PackageId) : ofJson id.toJson = .ok id := by
  simp only [ofJson, toJson, record]
  rw [required_ok rfl (string_str id.name),
    required_ok rfl (string_str id.version),
    defaulted_ok rfl (nullable_string id.source),
    defaulted_ok rfl (string_str id.reprId)]
  rfl

theorem legible_toJson (id : PackageId) : id.toJson.Legible := by
  have hsource : (Json.ofOption .str id.source).Legible :=
    Json.legible_ofOption fun _ _ => trivial
  exact ⟨by simp, trivial, trivial, hsource, trivial, trivial⟩

end PackageId

namespace UnsafeCounts

theorem ofJson_toJson (counts : UnsafeCounts) : ofJson counts.toJson = .ok counts := by
  simp only [ofJson, toJson, record]
  rw [defaulted_ok rfl (natural_nat counts.functions),
    defaulted_ok rfl (natural_nat counts.exprs),
    defaulted_ok rfl (natural_nat counts.itemTraits),
    defaulted_ok rfl (natural_nat counts.itemImpls),
    defaulted_ok rfl (natural_nat counts.methods)]
  rfl

theorem legible_toJson (counts : UnsafeCounts) : counts.toJson.Legible :=
  ⟨by simp, trivial, trivial, trivial, trivial, trivial, trivial⟩

end UnsafeCounts

namespace PackageSummary

theorem ofJson_toJson {summary : PackageSummary} (h : ∀ p ∈ summary.manifestPath, p.Spelled) :
    ofJson summary.toJson = .ok summary := by
  simp only [ofJson, toJson, record]
  rw [required_ok rfl summary.packageId.ofJson_toJson,
    required_ok rfl (word_ok summary.verdict.ofWord?_word),
    defaulted_ok rfl (int_int summary.scannedFiles),
    defaulted_ok rfl (int_int summary.entryPoints),
    defaulted_ok rfl summary.counts.ofJson_toJson,
    defaulted_ok rfl (bool_bool summary.metricsAvailable),
    defaulted_ok rfl (nullable_path h),
    defaulted_ok rfl (nullable_string summary.license),
    defaulted_ok rfl (nullable_string summary.repository),
    defaulted_ok rfl (list_strings summary.features)]
  rfl

theorem legible_toJson (summary : PackageSummary) : summary.toJson.Legible := by
  have hmanifest : (Json.ofOption (fun p : Path => .str p.toString) summary.manifestPath).Legible :=
    Json.legible_ofOption fun _ _ => trivial
  have htext : ∀ text? : Option String, (Json.ofOption .str text?).Legible :=
    fun _ => Json.legible_ofOption fun _ _ => trivial
  exact ⟨by simp, summary.packageId.legible_toJson, trivial, trivial, trivial,
    summary.counts.legible_toJson, trivial, hmanifest, htext _, htext _,
    Json.legible_strings summary.features, trivial⟩

end PackageSummary

-- ---------------------------------------------------------------------------
-- Tree lines
-- ---------------------------------------------------------------------------

theorem PackageLine.ofJson_toJson (line : PackageLine) : ofJson line.toJson = .ok line := by
  simp only [ofJson, toJson, record]
  rw [required_ok rfl line.packageId.ofJson_toJson,
    defaulted_ok rfl (string_str line.vines),
    defaulted_ok rfl (natural_nat line.depth),
    defaulted_ok rfl (word_ok line.verdict.ofWord?_word),
    defaulted_ok rfl (word_ok line.symbol.ofWord?_word)]
  rfl

theorem GroupLine.ofJson_toJson (line : GroupLine) : ofJson line.toJson = .ok line := by
  simp only [ofJson, toJson, record]
  rw [required_ok rfl (word_ok line.kind.ofWord?_word), defaulted_ok rfl (string_str line.vines)]
  rfl

namespace TreeLine

theorem ofJson_toJson (line : TreeLine) : ofJson line.toJson = .ok line := by
  cases line with
  | package line =>
    show ((PackageLine.ofJson line.toJson).map package).below (.field "package") = _
    rw [line.ofJson_toJson]
    rfl
  | group line =>
    show ((GroupLine.ofJson line.toJson).map group).below (.field "group") = _
    rw [line.ofJson_toJson]
    rfl

theorem legible_toJson (line : TreeLine) : line.toJson.Legible := by
  cases line with
  | package line =>
    exact ⟨by simp, trivial, line.packageId.legible_toJson, trivial, trivial, trivial, trivial,
      trivial⟩
  | group line => exact ⟨by simp, trivial, trivial, trivial, trivial⟩

end TreeLine

-- ---------------------------------------------------------------------------
-- Reports
-- ---------------------------------------------------------------------------

theorem Timestamp.ofJson_dataText {t : Timestamp} (h : t.isValid = true) :
    ofJson (.str t.dataText) = .ok t := by
  have hread := ofText?_dataText h
  unfold ofJson
  simp only [hread]

namespace AuditReport

variable {report : AuditReport}

/-- The timestamp is one of the calendar, the duration is a finite number in normal form if there is
one, and texts spell the paths. -/
structure Regular (report : AuditReport) : Prop where
  timestamp : report.timestamp.isValid = true
  duration : ∀ x ∈ report.durationMs, x.IsNormal
  manifests : ∀ summary ∈ report.packages, ∀ p ∈ summary.manifestPath, p.Spelled

theorem ofJsonAt_toJson (h : report.Regular) (now : Timestamp) :
    ofJsonAt now report.toJson = .ok report := by
  have hlines : list TreeLine.ofJson (.arr (report.lines.map TreeLine.toJson)) =
      .ok report.lines :=
    list_map fun line _ => line.ofJson_toJson
  have hpackages : list PackageSummary.ofJson (.arr (report.packages.map PackageSummary.toJson)) =
      .ok report.packages :=
    list_map fun summary hsummary => PackageSummary.ofJson_toJson (h.manifests summary hsummary)
  have hduration : nullable duration (Json.ofOption .float report.durationMs) =
      .ok report.durationMs :=
    nullable_ofOption (fun _ _ => rfl) nofun
  simp only [ofJsonAt, toJson, record]
  rw [defaulted_ok rfl (Timestamp.ofJson_dataText h.timestamp),
    required_ok rfl (string_str report.manifestPath),
    required_ok rfl report.root.ofJson_toJson,
    defaulted_ok rfl (word_ok report.scanMode.ofWord?_word),
    defaulted_ok rfl hlines,
    defaulted_ok rfl hpackages,
    defaulted_ok rfl (int_int report.resolvedFileCount),
    defaulted_ok rfl hduration,
    defaulted_ok rfl (list_strings report.errors),
    defaulted_ok rfl (list_strings report.warnings)]
  rfl

theorem legible_toJson (h : report.Regular) : report.toJson.Legible := by
  have hlines : (Json.arr (report.lines.map TreeLine.toJson)).Legible :=
    Json.legible_list fun line _ => line.legible_toJson
  have hpackages : (Json.arr (report.packages.map PackageSummary.toJson)).Legible :=
    Json.legible_list fun summary _ => summary.legible_toJson
  have hduration : (Json.ofOption .float report.durationMs).Legible :=
    Json.legible_ofOption h.duration
  exact ⟨by simp, trivial, trivial, report.root.legible_toJson, trivial, hlines, hpackages,
    trivial, hduration, Json.legible_strings report.errors,
    Json.legible_strings report.warnings, trivial⟩

/-- A report comes back from its text, whenever it is read. -/
theorem ofJsonAt_written (h : report.Regular) (now : Timestamp) :
    (Json.read? (Json.write .compact report.toJson)).map (ofJsonAt now) = some (.ok report) := by
  rw [Json.read?_write (legible_toJson h), Option.map_some, ofJsonAt_toJson h now]

/-- A report with a line of each kind, and with one summary that has details and one that has
none. -/
def detailed : AuditReport where
  timestamp := ⟨2026, 1, 2, 3, 4, 5, 60700, some (-90)⟩
  manifestPath := "/app/Cargo.toml"
  root := ⟨"app", "0.1.0", none, "app 0.1.0"⟩
  scanMode := .forbidOnly
  lines := [
    .package ⟨⟨"app", "0.1.0", none, "app 0.1.0"⟩, "", 0, .unsafeDetected, .rads⟩,
    .group ⟨.build, "├── "⟩,
    .package ⟨⟨"cc", "1.0.0", some PackageId.cratesIoSource, "cc 1.0.0"⟩, "│   └── ", 2,
      .forbidsUnsafeEverywhere, .lock⟩]
  packages := [
    { PackageSummary.bare ⟨"app", "0.1.0", none, "app 0.1.0"⟩ .unsafeDetected with
      counts := ⟨1, 2, 0, 0, 3⟩, manifestPath := some (.atRoot ["app", "Cargo.toml"]),
      license := some "MIT \"or\" Apache", features := ["default", "é"] },
    .bare ⟨"cc", "1.0.0", some PackageId.cratesIoSource, "cc 1.0.0"⟩ .forbidsUnsafeEverywhere]
  resolvedFileCount := 2
  durationMs := some (.finite false 7036874417766400 (-49))
  errors := ["first\nsecond"]
  warnings := []

theorem regular_detailed : detailed.Regular where
  timestamp := by decide
  duration := by
    rintro x ⟨⟩
    decide
  manifests := by
    have hkept : Path.Spelled (.atRoot ["app", "Cargo.toml"]) :=
      Path.spelled_iff.mpr (by decide)
    intro summary hsummary p hp
    rcases List.mem_cons.mp hsummary with rfl | hsummary
    · cases hp
      exact hkept
    · obtain rfl := List.mem_singleton.mp hsummary
      cases hp

theorem ofJsonAt_written_detailed :
    detailed.Regular ∧
    (Json.read? (Json.write .compact detailed.toJson)).map
      (ofJsonAt ⟨2000, 1, 1, 0, 0, 0, 0, none⟩) = some (.ok detailed) :=
  ⟨regular_detailed, ofJsonAt_written regular_detailed _⟩

end AuditReport

end UnsafeAudit
