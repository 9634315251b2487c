import UnsafeAudit.CommandLine.Flags
import UnsafeAudit.Proofs.Text.Lines

/-!
# What flags override

Settings are told apart by names of their own, so that what flags ask of the
settings is a table. The flags of a command line put in what they ask for and
leave the rest as it is. From this alone it follows that they do nothing when
they are applied again, and that flags on builds and flags on scans can be
applied in either order.
-/

namespace UnsafeAudit

-- ---------------------------------------------------------------------------
-- Settings by name
-- ---------------------------------------------------------------------------

inductive Setting
  -- of the build
  | cargo | features | allFeatures | noDefaultFeatures | allTargets | target | jobs | offline
  | locked | frozen
  -- of the dependency graph
  | buildDeps | devDeps | allDeps | invert
  -- of the scan
  | forbidOnly | includeTests | allowPartialResults
  -- of the output
  | all | charset | linePrefix | format | colorize | verbose
  deriving DecidableEq, Repr

def Setting.Value : Setting → Type
  | cargo | format => String
  | features => List String
  | target => Option String
  | jobs => Option Int
  | charset => Charset
  | linePrefix => LinePrefix
  | _ => Bool

namespace Config

def read (config : Config) : (s : Setting) → s.Value
  | .cargo => config.build.cargo
  | .features => config.build.features
  | .allFeatures => config.build.allFeatures
  | .noDefaultFeatures => config.build.noDefaultFeatures
  | .allTargets => config.build.allTargets
  | .target => config.build.target
  | .jobs => config.build.jobs
  | .offline => config.build.offline
  | .locked => config.build.locked
  | .frozen => config.build.frozen
  | .buildDeps => config.graph.buildDeps
  | .devDeps => config.graph.devDeps
  | .allDeps => config.graph.allDeps
  | .invert => config.graph.invert
  | .forbidOnly => config.scan.forbidOnly
  | .includeTests => config.scan.includeTests
  | .allowPartialResults => config.scan.allowPartialResults
  | .all => config.output.all
  | .charset => config.output.charset
  | .linePrefix => config.output.linePrefix
  | .format => config.output.format
  | .colorize => config.output.colorize
  | .verbose => config.output.verbose

def ofValues (value : (s : Setting) → s.Value) : Config where
  build := {
    cargo := value .cargo
    features := value .features
    allFeatures := value .allFeatures
    noDefaultFeatures := value .noDefaultFeatures
    allTargets := value .allTargets
    target := value .target
    jobs := value .jobs
    offline := value .offline
    locked := value .locked
    frozen := value .frozen }
  graph := {
    buildDeps := value .buildDeps
    devDeps := value .devDeps
    allDeps := value .allDeps
    invert := value .invert }
  scan := {
    forbidOnly := value .forbidOnly
    includeTests := value .includeTests
    allowPartialResults := value .allowPartialResults }
  output := {
    all := value .all
    charset := value .charset
    linePrefix := value .linePrefix
    format := value .format
    colorize := value .colorize
    verbose := value .verbose }

@[simp] theorem ofValues_read (config : Config) : ofValues config.read = config := rfl

/-- A configuration is no more than what its settings are read as. -/
theorem eq_of_read {a b : Config} (h : ∀ s, a.read s = b.read s) : a = b := by
  rw [← a.ofValues_read, ← b.ofValues_read, funext h]

end Config

namespace CommandLine

-- ---------------------------------------------------------------------------
-- What is asked of settings
-- ---------------------------------------------------------------------------

/-- The values that are asked for, of some of the settings. -/
def Demands : Type := (s : Setting) → Option s.Value

namespace Demands

variable {d e : Demands} {a b c b' c' : Config}

/-- What `d` or `e` asks for, the first where both ask. -/
def or (d e : Demands) : Demands := fun s => (d s).or (e s)

def Disjoint (d e : Demands) : Prop := ∀ s, d s = none ∨ e s = none

theorem Disjoint.or_comm (h : Disjoint d e) : d.or e = e.or d := by
  funext s
  rcases h s with hs | hs <;> simp [Demands.or, hs]

/-- Every setting has the value that is asked for, and the old one where none is. -/
def Turn (d : Demands) (old new : Config) : Prop := ∀ s, new.read s = (d s).getD (old.read s)

theorem Turn.unique (h : d.Turn a b) (h' : d.Turn a b') : b = b' :=
  Config.eq_of_read fun s => (h s).trans (h' s).symm

theorem Turn.trans (h : d.Turn a b) (h' : e.Turn b c) : (e.or d).Turn a c := by
  intro s
  rw [h' s, h s]
  cases hs : e s <;> simp [Demands.or, hs]

theorem or_self (d : Demands) : d.or d = d := by
  funext s
  exact Option.or_self

theorem Turn.again (h : d.Turn a b) (h' : d.Turn b c) : c = b :=
  Turn.unique (d.or_self ▸ h.trans h') h

theorem Turn.commute (hde : Disjoint d e) (hb : d.Turn a b) (hc : e.Turn b c)
    (hb' : e.Turn a b') (hc' : d.Turn b' c') : c = c' :=
  Turn.unique (hb.trans hc) (hde.or_comm ▸ hb'.trans hc')

end Demands

-- ---------------------------------------------------------------------------
-- Names of features
-- ---------------------------------------------------------------------------

def separates (c : Char) : Bool := c = ',' || Text.isBlank c

def pieces (texts : List String) : List String :=
  texts.flatMap fun text => ((text.toList.splitOnP separates).filter (· ≠ [])).map String.ofList

theorem featureNames_eq_pieces (flags : BuildFlags) :
    flags.featureNames = pieces flags.features := by
  have hwords (text : List Char) :
      Text.words (text.map fun c => if c = ',' then ' ' else c) =
        (text.splitOnP separates).filter (· ≠ []) := by
    refine Text.words_map (fun c => ?_) (fun c hc => ?_) text
    · by_cases hcomma : c = ','
      · subst hcomma
        decide
      · simp [separates, hcomma]
    · have hcomma : c ≠ ',' := by
        rintro rfl
        exact absurd hc (by decide)
      exact if_neg hcomma
  exact congrArg (flags.features.flatMap ·)
    (funext fun text => congrArg (List.map String.ofList) (hwords text.toList))

-- ---------------------------------------------------------------------------
-- What flags ask for
-- ---------------------------------------------------------------------------

/-- A flag without a value asks for one value, or is not given. -/
def onlyIf {α : Type} (given : Bool) (value : α) : Option α := if given then some value else none

/-- What flags on builds ask for. Features without a piece, an empty name of a target and no jobs
at all are as good as not given. -/
def BuildFlags.demands (flags : BuildFlags) : Demands
  | .features => onlyIf (pieces flags.features ≠ []) (pieces flags.features)
  | .allFeatures => onlyIf flags.allFeatures true
  | .noDefaultFeatures => onlyIf flags.noDefaultFeatures true
  | .allTargets => onlyIf flags.allTargets true
  | .target => (flags.target.filter (· ≠ "")).map some
  | .jobs => (flags.jobs.filter (· ≠ 0)).map fun n => some (Int.ofNat n)
  | .offline => onlyIf flags.offline true
  | .locked => onlyIf flags.locked true
  | .frozen => onlyIf flags.frozen true
  | _ => none

/-- What flags on scans ask for. Of the two prefixes of lines the depth comes first. -/
def ScanFlags.demands (flags : ScanFlags) : Demands
  | .buildDeps => onlyIf flags.buildDeps true
  | .devDeps => onlyIf flags.devDeps true
  | .allDeps => onlyIf flags.allDeps true
  | .invert => onlyIf flags.invert true
  | .forbidOnly => onlyIf flags.forbidOnly true
  | .includeTests => onlyIf flags.includeTests true
  | .allowPartialResults => onlyIf flags.strict false
  | .all => onlyIf flags.all true
  | .charset => flags.charset
  | .linePrefix => (onlyIf flags.prefixDepth .depth).or (onlyIf flags.noIndent .none)
  | .format => flags.pattern
  | .colorize => onlyIf flags.noColor false
  | .verbose => onlyIf flags.verbose true
  | _ => none

section Switches

variable (given old : Bool)

theorem getD_onlyIf_true : (onlyIf given true).getD old = (given || old) := by
  cases given <;> rfl

theorem getD_onlyIf_false : (onlyIf given false).getD old = (!given && old) := by
  cases given <;> rfl

end Switches

theorem BuildFlags.demands_disjoint (build : BuildFlags) (scan : ScanFlags) :
    build.demands.Disjoint scan.demands := by
  intro s
  cases s
  all_goals first
    | exact .inl rfl
    | exact .inr rfl

theorem BuildFlags.turn_apply (flags : BuildFlags) (config : Config) :
    flags.demands.Turn config (flags.apply config) := by
  intro s
  cases s
  case features =>
    simp only [Config.read, apply, demands, featureNames_eq_pieces]
    cases pieces flags.features <;> rfl
  case target =>
    simp only [Config.read, apply, demands, targetName]
    cases flags.target.filter (· ≠ "") <;> rfl
  case jobs =>
    simp only [Config.read, apply, demands, jobCount]
    cases flags.jobs.filter (· ≠ 0) <;> rfl
  case allFeatures | noDefaultFeatures | allTargets | offline | locked | frozen =>
    exact (getD_onlyIf_true _ _).symm
  all_goals rfl

theorem ScanFlags.linePrefix_eq (flags : ScanFlags) :
    flags.linePrefix = (onlyIf flags.prefixDepth .depth).or (onlyIf flags.noIndent .none) := by
  rw [linePrefix]
  cases flags.prefixDepth <;> rfl

theorem ScanFlags.turn_apply (flags : ScanFlags) (config : Config) :
    flags.demands.Turn config (flags.apply config) := by
  intro s
  cases s
  case linePrefix => exact congrArg (Option.getD · config.output.linePrefix) flags.linePrefix_eq
  case allowPartialResults | colorize => exact (getD_onlyIf_false _ _).symm
  case buildDeps | devDeps | allDeps | invert | forbidOnly | includeTests | all | verbose =>
    exact (getD_onlyIf_true _ _).symm
  all_goals rfl

/-- Flags set what they ask for and nothing else. No setting is asked for by flags on builds and
by flags on scans, so these can be applied in either order, and neither does anything when it is
applied again. The configuration that they are applied to is a value of its own and stays. -/
theorem flags_override (build : BuildFlags) (scan : ScanFlags) (config : Config) :
    (build.demands.or scan.demands).Turn config (scan.apply (build.apply config)) ∧
      build.demands.Disjoint scan.demands ∧
      build.demands.Turn config (build.apply config) ∧
      scan.demands.Turn config (scan.apply config) ∧
      build.apply (build.apply config) = build.apply config ∧
      scan.apply (scan.apply config) = scan.apply config ∧
      scan.apply (build.apply config) = build.apply (scan.apply config) := by
  have hdisjoint := build.demands_disjoint scan
  have hboth := (build.turn_apply config).trans (scan.turn_apply (build.apply config))
  refine ⟨hdisjoint.or_comm ▸ hboth, hdisjoint, build.turn_apply config, scan.turn_apply config,
    ?_, ?_, ?_⟩
  · exact (build.turn_apply config).again (build.turn_apply _)
  · exact (scan.turn_apply config).again (scan.turn_apply _)
  · exact (build.turn_apply config).commute hdisjoint (scan.turn_apply _) (scan.turn_apply config)
      (build.turn_apply _)

end CommandLine

end UnsafeAudit
