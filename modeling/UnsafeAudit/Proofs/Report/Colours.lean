import UnsafeAudit.Proofs.Report.Written
import UnsafeAudit.Proofs.Text.Styled
import UnsafeAudit.Report.Terminal

/-!
# Colours of a report

A report and a pattern without the escape character are printed with colours
and without them alike: the one text is the other with sequences in it that set
a style (`unstyled_reportText`).
-/

namespace UnsafeAudit

open Text (Sheds escape bare_append bare_ofList bare_joinWith sheds_print)

variable {report : AuditReport} {summary : PackageSummary} {pattern : Pattern} {path : Path}
  {id : PackageId} {o : TerminalOptions} {text : String}

-- ---------------------------------------------------------------------------
-- Reports and patterns without the escape character
-- ---------------------------------------------------------------------------

structure PackageId.Bare (id : PackageId) : Prop where
  name : Text.Bare id.name
  version : Text.Bare id.version

def Path.Bare (path : Path) : Prop := ∀ name ∈ path.parts, Text.Bare name

instance : DecidablePred Path.Bare :=
  fun path => inferInstanceAs (Decidable (∀ name ∈ path.parts, Text.Bare name))

structure PackageSummary.Bare (summary : PackageSummary) : Prop where
  packageId : summary.packageId.Bare
  manifestPath : ∀ path ∈ summary.manifestPath, path.Bare
  license : ∀ text ∈ summary.license, Text.Bare text
  repository : ∀ text ∈ summary.repository, Text.Bare text
  features : ∀ text ∈ summary.features, Text.Bare text

/-- No text of a report that is printed has the escape character. -/
structure AuditReport.Bare (report : AuditReport) : Prop where
  vines : ∀ line ∈ report.lines, Text.Bare line.vines
  ids : ∀ line ∈ report.lines, ∀ id ∈ line.packageId?, id.Bare
  packages : ∀ summary ∈ report.packages, summary.Bare
  errors : ∀ text ∈ report.errors, Text.Bare text
  warnings : ∀ text ∈ report.warnings, Text.Bare text

def Pattern.Bare (pattern : Pattern) : Prop := ∀ chars, .text chars ∈ pattern → escape ∉ chars

theorem Pattern.bare_of_parse (h : parse text = .ok pattern) (hbare : Text.Bare text) :
    pattern.Bare := by
  obtain ⟨pieces, htext, rfl⟩ := parse_ok_iff.mp h
  intro chars hchunk hescape
  have hwritten : escape ∈ unparse (ofPieces pieces) := by
    refine List.mem_flatMap.mpr ⟨_, hchunk, List.mem_flatMap.mpr ⟨escape, hescape, ?_⟩⟩
    decide
  rw [unparse_ofPieces, ← htext] at hwritten
  exact hbare hwritten

-- ---------------------------------------------------------------------------
-- Parts of a report
-- ---------------------------------------------------------------------------

theorem Decimal.bare_natText (n : Nat) : Text.Bare (natText n) := by
  refine bare_ofList.mpr fun hmem => ?_
  have hdigit := Nat.isDigit_of_mem_toDigits (by decide) (by decide) hmem
  exact absurd hdigit (by decide)

theorem bare_toString_nat (n : Nat) : Text.Bare (toString n) := Decimal.bare_natText n

theorem Decimal.bare_zeros (n : Nat) : Text.Bare (zeros n) :=
  bare_ofList.mpr fun hmem => absurd (List.eq_of_mem_replicate hmem) (by decide)

theorem Decimal.bare_fixed (places : Nat) (x : Binary64) : Text.Bare (fixed places x) := by
  cases x with
  | nan => rw [fixed]; decide
  | infinite negative => cases negative <;> rw [fixed] <;> decide
  | finite negative m e =>
    rw [fixed]
    obtain ⟨num, den⟩ := (Binary64.finite negative m e).magnitude
    dsimp only
    generalize hds : zeros _ ++ natText _ = ds
    have hbare : Text.Bare ds := hds ▸ bare_append.mpr ⟨bare_zeros _, bare_natText _⟩
    have hwhole : Text.Bare (String.ofList (ds.toList.take (ds.length - places))) :=
      hbare.of_subset (List.take_subset _ _)
    have hpart : Text.Bare (String.ofList (ds.toList.drop (ds.length - places))) :=
      hbare.of_subset (List.drop_subset _ _)
    refine bare_append.mpr ⟨bare_append.mpr ⟨?_, hwhole⟩, ?_⟩
    · split <;> decide
    · split
      · decide
      · exact bare_append.mpr ⟨by decide, hpart⟩

theorem Path.bare_toString (h : path.Bare) : Text.Bare path.toString := by
  rw [toString.eq_def]
  split
  · decide
  · have hanchor : Text.Bare (Anchor.text path.anchor) := by
      cases path.anchor <;> decide
    exact bare_append.mpr ⟨hanchor, bare_joinWith (by decide) h⟩

theorem PackageId.bare_toString (h : id.Bare) : Text.Bare id.toString :=
  bare_append.mpr ⟨bare_append.mpr ⟨h.name, by decide⟩, h.version⟩

theorem Path.bare_parent (h : path.Bare) : path.parent.Bare :=
  fun name hname => h name (List.dropLast_subset _ hname)

theorem bare_getD {text? : Option String} (h : ∀ text ∈ text?, Text.Bare text) :
    Text.Bare (text?.getD "") := by
  cases text? with
  | none => decide
  | some text => exact h text rfl

theorem Placeholder.bare_value (h : summary.Bare) (which : Placeholder) :
    Text.Bare (which.value summary) := by
  cases which with
  | package =>
    have hid : Text.Bare summary.packageId.toString := PackageId.bare_toString h.packageId
    rw [value]
    split
    · rename_i manifest hmanifest
      split
      · have hparent : Text.Bare manifest.parent.toString :=
          Path.bare_toString (Path.bare_parent (h.manifestPath manifest hmanifest))
        have hopen : Text.Bare " (" := by decide
        have hclose : Text.Bare ")" := by decide
        exact bare_append.mpr ⟨bare_append.mpr ⟨bare_append.mpr ⟨hid, hopen⟩, hparent⟩, hclose⟩
      · exact hid
    · exact hid
  | license => exact bare_getD h.license
  | repository => exact bare_getD h.repository
  | features => exact bare_joinWith (by decide) h.features

theorem Pattern.bare_display (hp : pattern.Bare) (hs : summary.Bare) :
    Text.Bare (pattern.display summary) := by
  refine Text.bare_join fun text htext => ?_
  obtain ⟨chunk, hchunk, rfl⟩ := List.mem_map.mp htext
  cases chunk with
  | text chars => exact bare_ofList.mpr (hp chars hchunk)
  | placeholder which => exact which.bare_value hs

namespace TerminalOptions

abbrev coloured (o : TerminalOptions) : TerminalOptions := { o with colorize := true }
abbrev uncoloured (o : TerminalOptions) : TerminalOptions := { o with colorize := false }

theorem sheds_styled {emphasis : Text.Emphasis} (h : Text.Bare text) :
    Sheds (o.coloured.styled emphasis text) (o.uncoloured.styled emphasis text) :=
  sheds_print emphasis h

theorem sheds_plain (h : Text.Bare text) : Sheds (plain text) (plain text) := sheds_print .plain h

theorem bare_symbolText (o : TerminalOptions) (symbol : SafetySymbol) :
    Text.Bare (o.symbolText symbol) := by
  rw [symbolText]
  cases o.charset <;> cases symbol <;> decide

theorem sheds_keyLine (symbol : SafetySymbol) {meaning : String} (h : Text.Bare meaning) :
    Sheds (o.coloured.keyLine symbol meaning) (o.uncoloured.keyLine symbol meaning) := by
  refine sheds_plain ?_
  have hsymbol : Text.Bare (o.symbolText symbol) := bare_symbolText o symbol
  have hmark : Text.Bare " = " := by decide
  have hindent : Text.Bare "    " := by decide
  exact bare_append.mpr ⟨bare_append.mpr ⟨bare_append.mpr ⟨hindent, hsymbol⟩, hmark⟩, h⟩

theorem sheds_keyText (o : TerminalOptions) : Sheds o.coloured.keyText o.uncoloured.keyText := by
  refine .append (.append (.append (.append (.append (sheds_plain (by decide)) ?_) ?_) ?_) ?_)
    (sheds_plain (by decide))
  · exact sheds_styled (by decide)
  · exact sheds_keyLine _ (by decide)
  · exact sheds_keyLine _ (by decide)
  · exact sheds_keyLine _ (by decide)

theorem bare_label (line : GroupLine) : Text.Bare line.label := by
  rw [GroupLine.label]
  cases line.kind <;> decide

theorem bare_summaryOf (h : report.Bare) {line : PackageLine} (hid : line.packageId.Bare) :
    (summaryOf report line).Bare := by
  rw [summaryOf]
  cases hfind : report.packages.reverse.find? (·.packageId = line.packageId) with
  | none => exact ⟨hid, nofun, nofun, nofun, nofun⟩
  | some summary => exact h.packages summary (List.mem_reverse.mp (List.mem_of_find?_eq_some hfind))

theorem sheds_treeLine (h : report.Bare) (hpattern : o.pattern.Bare) {line : TreeLine}
    (hline : line ∈ report.lines) :
    Sheds (o.coloured.treeLine report line) (o.uncoloured.treeLine report line) := by
  have hvines : Text.Bare line.vines := h.vines line hline
  cases line with
  | group line =>
    have hindent : Text.Bare "   " := by decide
    have hopen : Text.Bare "[" := by decide
    have hclose : Text.Bare "]" := by decide
    exact sheds_plain (bare_append.mpr ⟨bare_append.mpr ⟨bare_append.mpr ⟨bare_append.mpr
      ⟨hindent, hvines⟩, hopen⟩, bare_label line⟩, hclose⟩)
  | package line =>
    have hshown : Text.Bare (o.pattern.display (summaryOf report line)) :=
      Pattern.bare_display hpattern (bare_summaryOf h (h.ids _ hline _ rfl))
    have hblank : Text.Bare " " := by decide
    exact sheds_styled (bare_append.mpr ⟨bare_append.mpr ⟨bare_append.mpr
      ⟨bare_symbolText o line.symbol, hblank⟩, hvines⟩, hshown⟩)

theorem sheds_countLine {label : String} (hlabel : Text.Bare label) (verdict : Verdict) :
    Sheds (o.coloured.countLine report label verdict)
      (o.uncoloured.countLine report label verdict) := by
  have hindent : Text.Bare "  " := by decide
  have hcolon : Text.Bare ": " := by decide
  exact sheds_styled (bare_append.mpr ⟨bare_append.mpr ⟨bare_append.mpr ⟨hindent, hlabel⟩, hcolon⟩,
    bare_toString_nat _⟩)

theorem sheds_durationText (report : AuditReport) :
    Sheds (durationText report) (durationText report) := by
  rw [durationText]
  split
  · exact .refl (by decide)
  · split
    · exact .refl (by decide)
    · have htitle : Text.Bare "  Analysis Time: " := by decide
      have hunit : Text.Bare "ms" := by decide
      exact sheds_plain (bare_append.mpr ⟨bare_append.mpr ⟨htitle, Decimal.bare_fixed _ _⟩, hunit⟩)

theorem sheds_summaryText (o : TerminalOptions) (report : AuditReport) :
    Sheds (o.coloured.summaryText report) (o.uncoloured.summaryText report) := by
  have hpackages : Text.Bare s!"  Packages: {report.packageCount}" :=
    bare_append.mpr ⟨by decide, bare_toString_nat _⟩
  refine .append (.append (.append (.append (.append (.append ?_ ?_) ?_) ?_) ?_) ?_) ?_
  · exact sheds_styled (by decide)
  · exact sheds_plain hpackages
  · exact sheds_countLine (by decide) _
  · exact sheds_countLine (by decide) _
  · exact sheds_countLine (by decide) _
  · exact sheds_durationText report
  · exact sheds_plain (by decide)

theorem sheds_messages {emphasis : Text.Emphasis} {title : String} {texts : List String}
    (htitle : Text.Bare title) (h : ∀ text ∈ texts, Text.Bare text) :
    Sheds (o.coloured.messages emphasis title texts) (o.uncoloured.messages emphasis title texts) := by
  cases texts with
  | nil => exact .refl (s := "") (by decide)
  | cons first rest =>
    refine .append (.append (sheds_styled htitle) (.join fun text htext => sheds_plain ?_))
      (sheds_plain (by decide))
    exact bare_append.mpr ⟨by decide, h text htext⟩

theorem sheds_reportText (h : report.Bare) (hpattern : o.pattern.Bare) :
    Sheds (o.coloured.reportText report) (o.uncoloured.reportText report) := by
  refine .append (.append (.append (.append (.append ?_ ?_) ?_) ?_) ?_) ?_
  · exact sheds_keyText o
  · exact .join fun line hline => sheds_treeLine h hpattern hline
  · exact sheds_plain (by decide)
  · exact sheds_summaryText o report
  · exact sheds_messages (by decide) h.errors
  · exact sheds_messages (by decide) h.warnings

/-- Colours change nothing but styles. The text with colours, without the sequences in it that set a
style, is the text without colours, and that one has no such sequences. -/
theorem unstyled_reportText (h : report.Bare) (htext : Text.Bare text)
    (hpattern : Pattern.parse text = .ok pattern) (charset : Charset) :
    Text.unstyled (reportText ⟨true, charset, pattern⟩ report).toList =
      (reportText ⟨false, charset, pattern⟩ report).toList ∧
    escape ∉ (reportText ⟨false, charset, pattern⟩ report).toList := by
  have hsheds : Sheds (reportText ⟨true, charset, pattern⟩ report)
      (reportText ⟨false, charset, pattern⟩ report) :=
    sheds_reportText h (o := ⟨true, charset, pattern⟩) (Pattern.bare_of_parse hpattern htext)
  exact ⟨hsheds.unstyled, hsheds.bare⟩

/-- A report with a package of each colour, one of them below a label, and an error. -/
def printed : AuditReport where
  timestamp := ⟨2026, 1, 2, 3, 4, 5, 0, none⟩
  manifestPath := "/app/Cargo.toml"
  root := ⟨"app", "0.1.0", none, "app 0.1.0"⟩
  scanMode := .full
  lines := [
    .package ⟨⟨"app", "0.1.0", none, "app 0.1.0"⟩, "", 0, .unsafeDetected, .rads⟩,
    .group ⟨.build, "│   "⟩,
    .package ⟨⟨"cc", "1.0.0", none, "cc 1.0.0"⟩, "└── ", 1, .forbidsUnsafeEverywhere, .lock⟩]
  packages := [{ PackageSummary.bare ⟨"app", "0.1.0", none, "app 0.1.0"⟩ .unsafeDetected with
    manifestPath := some (.atRoot ["app", "Cargo.toml"]), license := some "MIT\tApache-2.0" }]
  resolvedFileCount := 2
  durationMs := some (.finite false 7036874417766400 (-49))
  errors := ["first\nsecond"]
  warnings := []

theorem bare_printed : printed.Bare where
  vines := by decide
  ids := by
    have hall : ∀ line ∈ printed.lines, ∀ id ∈ line.packageId?,
        Text.Bare id.name ∧ Text.Bare id.version := by decide
    exact fun line hline id hid => ⟨(hall line hline id hid).1, (hall line hline id hid).2⟩
  packages := by
    intro summary hsummary
    obtain rfl := List.mem_singleton.mp hsummary
    exact ⟨⟨by decide, by decide⟩, by decide, by decide, by decide, by decide⟩
  errors := by decide
  warnings := by decide

theorem unstyled_reportText_printed :
    printed.Bare ∧ Text.Bare "\x7bp\x7d \x7bl\x7d" ∧
    Pattern.parse "\x7bp\x7d \x7bl\x7d" =
      .ok [.placeholder .package, .text [' '], .placeholder .license] ∧
    Text.unstyled
        (reportText ⟨true, .utf8, [.placeholder .package, .text [' '], .placeholder .license]⟩
          printed).toList =
      (reportText ⟨false, .utf8, [.placeholder .package, .text [' '], .placeholder .license]⟩
        printed).toList := by
  have hpattern : Pattern.parse "\x7bp\x7d \x7bl\x7d" =
      .ok [.placeholder .package, .text [' '], .placeholder .license] :=
    Pattern.parse_ok_iff.mpr ⟨[.placeholder .package, .plain ' ' (by decide),
      .placeholder .license], by decide, rfl⟩
  have hbare : Text.Bare "\x7bp\x7d \x7bl\x7d" := by decide
  exact ⟨bare_printed, hbare, hpattern, (unstyled_reportText bare_printed hbare hpattern .utf8).1⟩

end TerminalOptions

end UnsafeAudit
