import UnsafeAudit.Proofs.Build.Gathered
import UnsafeAudit.Proofs.Loops

/-!
# What compiler runs leave on record

The source roots on record are what the source arguments of the compiler runs
resolve to (`Records.mem_roots_iff`). A run that compiles nothing leaves no
record, and has no source argument to lose. Runs can be recorded if all their
source arguments resolve, and only then (`exists_invocations_iff`).
-/

namespace UnsafeAudit

variable {fs : FileSystem} {path : Path}

-- ---------------------------------------------------------------------------
-- One invocation
-- ---------------------------------------------------------------------------

namespace Invocation

variable {inv inv' : Invocation} {setting : Setting} {settings : List Setting}

def Setting.source? (cwd : Path) : Setting → Option Path
  | .source text => some (cwd.join (.ofString text))
  | _ => none

theorem apply_value (fs : FileSystem) (inv : Invocation) (which : ValueOption)
    (text : Option String) : ∃ inv', apply fs inv (.value which text) = .ok inv' ∧
      inv'.cwd = inv.cwd ∧ inv'.sourceRoots = inv.sourceRoots := by
  cases which with
  | crateName => exact ⟨_, rfl, rfl, rfl⟩
  | crateType => exact ⟨_, rfl, rfl, rfl⟩
  | outDir =>
    cases text with
    | none => exact ⟨_, rfl, rfl, rfl⟩
    | some text =>
      by_cases hempty : text = ""
      · exact ⟨inv, by rw [hempty]; rfl, rfl, rfl⟩
      · exact ⟨{ inv with outDir := some (inv.cwd.join (.ofString text)) }, by simp [apply],
          rfl, rfl⟩

theorem exists_apply_iff : (∃ inv', apply fs inv setting = .ok inv') ↔
    ∀ source, setting.source? inv.cwd = some source → ∃ path, fs.resolve source = .ok path := by
  cases setting with
  | value which text =>
    obtain ⟨inv', happly, -⟩ := apply_value fs inv which text
    exact ⟨fun _ => nofun, fun _ => ⟨inv', happly⟩⟩
  | test => exact ⟨fun _ => nofun, fun _ => ⟨_, rfl⟩⟩
  | source text =>
    rw [apply]
    simp only [Setting.source?, Option.some.injEq, forall_eq']
    cases fs.resolve (inv.cwd.join (.ofString text)) <;> simp [Except.map]

theorem of_apply_ok (h : apply fs inv setting = .ok inv') : inv'.cwd = inv.cwd ∧
    ∀ path, path ∈ inv'.sourceRoots ↔ path ∈ inv.sourceRoots ∨
      ∃ source, setting.source? inv.cwd = some source ∧ fs.resolve source = .ok path := by
  cases setting with
  | value which text =>
    obtain ⟨inv'', happly, hcwd, hroots⟩ := apply_value fs inv which text
    obtain rfl := Except.ok.inj (happly.symm.trans h)
    simp [hcwd, hroots, Setting.source?]
  | test =>
    cases h
    simp [Setting.source?]
  | source text =>
    rw [apply] at h
    simp only [Setting.source?, Option.some.injEq, exists_eq_left']
    cases hresolve : fs.resolve (inv.cwd.join (.ofString text)) with
    | error e => rw [hresolve] at h; cases h
    | ok root =>
      rw [hresolve] at h
      cases h
      simp [eq_comm]

theorem exists_foldlM_apply_iff : (∃ inv', settings.foldlM (apply fs) inv = .ok inv') ↔
    ∀ setting ∈ settings, ∀ source, setting.source? inv.cwd = some source →
      ∃ path, fs.resolve source = .ok path := by
  induction settings generalizing inv with
  | nil => simp [pure, Except.pure]
  | cons setting rest ih =>
    rw [List.foldlM_cons, List.forall_mem_cons, ← exists_apply_iff]
    cases happly : apply fs inv setting with
    | error e => simp [bind, Except.bind]
    | ok next =>
      have hcwd := (of_apply_ok happly).1
      simp only [bind, Except.bind, ih, hcwd, Except.ok.injEq, exists_eq', true_and]

theorem of_foldlM_apply_ok (h : settings.foldlM (apply fs) inv = .ok inv') :
    ∀ path, path ∈ inv'.sourceRoots ↔ path ∈ inv.sourceRoots ∨
      ∃ setting ∈ settings, ∃ source, setting.source? inv.cwd = some source ∧
        fs.resolve source = .ok path := by
  induction settings generalizing inv with
  | nil =>
    cases h
    simp
  | cons setting rest ih =>
    rw [List.foldlM_cons] at h
    obtain ⟨next, happly, hrest⟩ := of_bind_ok h
    obtain ⟨hcwd, hroots⟩ := of_apply_ok happly
    intro path
    rw [ih hrest, hroots, hcwd, or_assoc]
    simp

theorem not_isProbe_of_mem (h : path ∈ inv.sourceRoots) : inv.isProbe = false := by
  rw [isProbe, List.isEmpty_eq_false_iff.mpr (List.ne_nil_of_mem h), Bool.false_and]

end Invocation

-- ---------------------------------------------------------------------------
-- The runs of a build
-- ---------------------------------------------------------------------------

/-- A run of the compiler: its arguments, and the directory that it runs in. -/
structure CompilerRun where
  args : List String
  cwd : Path

namespace CompilerRun

variable {run : CompilerRun} {runs : List CompilerRun} {inv : Invocation}

def invocation (fs : FileSystem) (run : CompilerRun) : Except ResolveError Invocation :=
  Invocation.ofArgs fs run.args run.cwd

/-- The paths of the source arguments, relative ones taken from the directory of the run. -/
def sources (run : CompilerRun) : List Path :=
  (Invocation.settings run.args).filterMap (·.source? run.cwd)

theorem mem_sources {source : Path} : source ∈ run.sources ↔
    ∃ setting ∈ Invocation.settings run.args, setting.source? run.cwd = some source :=
  List.mem_filterMap

theorem exists_invocation_iff : (∃ inv, run.invocation fs = .ok inv) ↔
    ∀ source ∈ run.sources, ∃ path, fs.resolve source = .ok path := by
  rw [invocation, Invocation.ofArgs, Invocation.exists_foldlM_apply_iff]
  simp only [mem_sources]
  exact ⟨fun h source ⟨setting, hmem, hsource⟩ => h setting hmem source hsource,
    fun h setting hmem source hsource => h source ⟨setting, hmem, hsource⟩⟩

theorem mem_roots_of_invocation_ok (h : run.invocation fs = .ok inv) :
    path ∈ inv.sourceRoots ↔ ∃ source ∈ run.sources, fs.resolve source = .ok path := by
  rw [Invocation.of_foldlM_apply_ok h path]
  simp only [mem_sources, Invocation.start, List.not_mem_nil, false_or]
  exact ⟨fun ⟨setting, hmem, source, hsource, h⟩ => ⟨source, ⟨setting, hmem, hsource⟩, h⟩,
    fun ⟨source, ⟨setting, hmem, hsource⟩, h⟩ => ⟨setting, hmem, source, hsource, h⟩⟩

theorem exists_invocations_iff : (∃ invs, runs.mapM (·.invocation fs) = .ok invs) ↔
    ∀ run ∈ runs, ∀ source ∈ run.sources, ∃ path, fs.resolve source = .ok path := by
  rw [exists_mapM_ok_iff]
  exact forall₂_congr fun run _ => exists_invocation_iff

end CompilerRun

namespace BuildContext

variable {context : BuildContext} {runs : List CompilerRun}

/-- A context holds the record of compiler runs. Only runs that compile nothing may have left
none. -/
def Records (fs : FileSystem) (context : BuildContext) (runs : List CompilerRun) : Prop :=
  ∃ invs recorded, runs.mapM (·.invocation fs) = .ok invs ∧ context.Gathers recorded ∧
    recorded ⊆ invs ∧ ∀ inv ∈ invs, inv.isProbe = false → inv ∈ recorded

theorem Records.mem_roots_iff (h : context.Records fs runs) :
    path ∈ context.sourceRoots ↔
      ∃ run ∈ runs, ∃ source ∈ run.sources, fs.resolve source = .ok path := by
  obtain ⟨invs, recorded, hinvs, hgathers, hsubset, hall⟩ := h
  rw [hgathers.mem_roots]
  constructor
  · rintro ⟨inv, hinv, hroot⟩
    obtain ⟨run, hrun, hrecord⟩ := (mem_of_mapM_ok hinvs).mp (hsubset hinv)
    exact ⟨run, hrun, (CompilerRun.mem_roots_of_invocation_ok hrecord).mp hroot⟩
  · rintro ⟨run, hrun, hsource⟩
    obtain ⟨inv, hrecord⟩ := exists_mapM_ok_iff.mp ⟨invs, hinvs⟩ run hrun
    have hroot := (CompilerRun.mem_roots_of_invocation_ok hrecord).mpr hsource
    exact ⟨inv, hall inv ((mem_of_mapM_ok hinvs).mpr ⟨run, hrun, hrecord⟩)
      (Invocation.not_isProbe_of_mem hroot), hroot⟩

end BuildContext

end UnsafeAudit
