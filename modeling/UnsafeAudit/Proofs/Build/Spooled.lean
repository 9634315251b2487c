import UnsafeAudit.Proofs.Build.Workers
import UnsafeAudit.Proofs.Build.Writers

/-!
# Builds that record through a spool

A build by cargo that records its compiler runs through a spool comes to the
context that records them directly (`recording_through_spool`): the invocations
come back from their files unchanged, those of all runs that have come to the
end and no others, and a context does not depend on their order.
-/

namespace UnsafeAudit

-- ---------------------------------------------------------------------------
-- A run that nobody interrupts
-- ---------------------------------------------------------------------------

namespace Spool

open FileSystem (HoldsFiles)

variable {here : Location} {writers : List Writer} {files : FileSystem} {s : State} {w : Writer}
  {inv : Invocation} {name : String}

@[simp] theorem State.enter_enter (s : State) (name : String) (phase phase' : Phase)
    (files files' : FileSystem) :
    (s.enter name phase files).enter name phase' files' = s.enter name phase' files' := by
  simp [State.enter]

@[simp] theorem State.phase_enter (s : State) (name : String) (phase : Phase)
    (files : FileSystem) : (s.enter name phase files).phase name = phase := by
  simp [State.enter]

theorem State.phase_enter_of_ne {other : String} (s : State) (h : other ≠ name) (phase : Phase)
    (files : FileSystem) : (s.enter name phase files).phase other = s.phase other := by
  simp [State.enter, h]

theorem observe_eq (fs : FileSystem) (spool : Path) (w : Writer)
    (hinv : w.run.invocation fs = .ok inv) :
    observe fs spool w.name w.run.cwd w.run.args =
      if inv.isProbe then .ok fs else (write fs spool w.name inv).mapError .os := by
  have hargs : Invocation.ofArgs fs w.run.args w.run.cwd = .ok inv := hinv
  rw [observe, hargs]
  show (if inv.isProbe then _ else _) = _
  split <;> rfl

theorem exists_observe (hopened : Opened here writers files) (h : Follows here writers files s)
    (hw : w ∈ writers) (hphase : s.phase w.name = .waiting)
    (hinv : w.run.invocation files = .ok inv) (hprobe : inv.isProbe = false) :
    ∃ now, observe s.files (.atRoot here) w.name w.run.cwd w.run.args = .ok now ∧
      Reaches here writers s (s.enter w.name (.published inv) now) := by
  have hnow : w.run.invocation s.files = .ok inv := (h.runs w hw).trans hinv
  have hbegin : Step here writers s (s.enter w.name (.writing inv) s.files) :=
    .begin hw hphase hnow hprobe
  obtain ⟨contents, hholds, -⟩ := h.keeps
  obtain ⟨written, hwrite, hwritten, -⟩ := exists_writeTemporary hholds (hopened.fits hw) inv
  obtain ⟨now, hpublish, -, -⟩ := exists_publish hwritten (hopened.fits hw)
    (Function.update_self ..)
  refine ⟨now, ?_, ?_⟩
  · rw [observe_eq _ _ _ hnow, hprobe, write, hwrite]
    show Except.mapError _ (publish _ _ _) = _
    rw [hpublish]
    rfl
  · have hwriting : Step here writers (s.enter w.name (.writing inv) s.files)
        (s.enter w.name (.written inv) written) := by
      simpa using Step.write hw (s.phase_enter w.name (.writing inv) s.files) hwrite
    have hpublishing : Step here writers (s.enter w.name (.written inv) written)
        (s.enter w.name (.published inv) now) := by
      simpa using Step.publish hw (s.phase_enter w.name (.written inv) written) hpublish
    exact .head hbegin (.head hwriting (.single hpublishing))

/-- What a spool shows of the runs that use it, in a state of the build. -/
structure Faithful (here : Location) (writers : List Writer) (files : FileSystem) (s : State) :
    Prop where
  /-- Who reads the spool gets what the runs have recorded that have come to the end, each of them
  once, and nothing else. -/
  reads : ∃ invs, read s.files (.atRoot here) = .ok invs ∧ invs.Perm (s.published writers)
  /-- Each file that is read is the whole record of one of them. -/
  whole : ∀ name ∈ recordNames s.files (.atRoot here), ∃ w ∈ writers, ∃ inv,
    s.phase w.name = .published inv ∧ name = w.name ++ suffix ∧
      s.files.readBytes ((Path.atRoot here).child name) = .ok (bytesOf inv)
  /-- A run has recorded what is on its command line. -/
  agrees : ∀ w ∈ writers, ∀ inv, s.phase w.name = .published inv →
    w.run.invocation files = .ok inv ∧ inv.isProbe = false
  /-- A run that nobody interrupts comes to the end, unless it compiles nothing. -/
  comesThrough : ∀ w ∈ writers, s.phase w.name = .waiting →
    (∀ source ∈ w.run.sources, ∃ path, files.resolve source = .ok path) →
      ∃ inv now, w.run.invocation files = .ok inv ∧
        observe s.files (.atRoot here) w.name w.run.cwd w.run.args = .ok now ∧
        if inv.isProbe then now = s.files
        else Reaches here writers s (s.enter w.name (.published inv) now)

theorem Follows.faithful (hopened : Opened here writers files)
    (h : Follows here writers files s) : Faithful here writers files s where
  reads := h.exists_read hopened
  whole name hname := by
    obtain ⟨record, hrecord, rfl⟩ := List.mem_map.mp
      ((h.perm_recordNames hopened).mem_iff.mp hname)
    obtain ⟨w, hw, hphase, hrecordName⟩ := mem_records.mp hrecord
    exact ⟨w, hw, record.2, hphase, hrecordName.symm, h.readBytes hopened hrecord⟩
  agrees w hw inv hphase := h.of_mem hopened hw (by rw [hphase]; rfl)
  comesThrough w hw hphase hsources := by
    obtain ⟨inv, hinv⟩ := CompilerRun.exists_invocation_iff.mpr hsources
    cases hprobe : inv.isProbe with
    | true =>
      refine ⟨inv, s.files, hinv, ?_, ?_⟩
      · rw [observe_eq _ _ _ ((h.runs w hw).trans hinv), hprobe]
        rfl
      · rw [hprobe]
        rfl
    | false =>
      obtain ⟨now, hobserve, hreaches⟩ := exists_observe hopened h hw hphase hinv hprobe
      refine ⟨inv, now, hinv, hobserve, ?_⟩
      rw [hprobe]
      exact hreaches

end Spool

-- ---------------------------------------------------------------------------
-- Contexts
-- ---------------------------------------------------------------------------

namespace BuildContext

def recording (invs : List Invocation) : BuildContext := invs.foldl record .empty

theorem gathers_recording (invs : List Invocation) : (recording invs).Gathers invs := by
  induction invs using List.reverseRecOn with
  | nil => exact .empty
  | append_singleton rest inv ih =>
    rw [recording, List.foldl_append]
    exact ih.record inv

end BuildContext

-- ---------------------------------------------------------------------------
-- Cargo
-- ---------------------------------------------------------------------------

namespace BuildDriver

variable {cargo : Cargo} {config : BuildConfig} {manifest : Path} {session cleaned : Session}
  {after : FileSystem} {output diagnostics : String} {status : Int}

def checkFailure (config : BuildConfig) (diagnostics : String) : Failure :=
  .audit (.buildFailed s!"'{config.cargo} check' failed" diagnostics)

theorem run_program {spool? : Option Path} {args : List String}
    (h : cargo session.files spool? args = .ok (after, .exited status output diagnostics)) :
    (Run.program cargo spool? args).run session = (.ok (.exited status output diagnostics),
      { session with files := after, commands := session.commands ++ [args] }) := by
  have hended : (Run.ofExcept ((cargo session.files spool? args).mapError Failure.fault)).run
      { session with commands := session.commands ++ [args] } =
        (.ok (after, .exited status output diagnostics),
          { session with commands := session.commands ++ [args] }) := by
    rw [Run.run_ofExcept, h, mapError_ok]
  refine (Run.bind_ok (t := { session with commands := session.commands ++ [args] }) rfl).trans ?_
  exact (Run.bind_ok (Run.run_files _)).trans (Run.bind_ok hended)

theorem runCargo_check
    (h : cargo session.files (some spool) (config.checkArgs manifest) =
      .ok (after, .exited status output diagnostics)) :
    (runCargo cargo (some spool) (config.checkArgs manifest)).run session =
      (if status = 0 then .ok () else .error (checkFailure config diagnostics),
        { session with
          files := after
          commands := session.commands ++ [config.checkArgs manifest] }) := by
  rw [runCargo, Run.bind_ok (run_program h)]
  by_cases hstatus : status = 0
  · subst status
    rfl
  · rw [if_neg hstatus]
    split
    · rename_i heq
      cases heq
    · rename_i heq
      cases heq
      contradiction
    · rename_i heq
      cases heq
      have hsummary : "'" ++ (config.cargo ++ " " ++ "check") ++ "' failed" =
          "'" ++ config.cargo ++ " check' failed" :=
        String.toList_inj.mp (by simp)
      have hfailure : Failure.audit (.buildFailed
          ("'" ++ (config.cargo ++ " " ++ "check") ++ "' failed") diagnostics) =
            checkFailure config diagnostics := by
        rw [hsummary]
        rfl
      exact congrArg (fun failure => (Except.error failure, _)) hfailure

/-- A cleaned session after a check that leaves the file system in a state. -/
def afterCheck (config : BuildConfig) (manifest : Path) (cleaned : Session) (after : FileSystem) :
    Session :=
  { cleaned with files := after, commands := cleaned.commands ++ [config.checkArgs manifest] }

section
variable (h : cargo (cleaned.files.makeDirs spool) (some spool) (config.checkArgs manifest) =
  .ok (after, .exited status output diagnostics))

include h

theorem build_run_of_failed (hstatus : status ≠ 0) :
    (ofCargo cargo config manifest).build.run cleaned =
      (.error (checkFailure config diagnostics), afterCheck config manifest cleaned after) := by
  let opened : Session := { cleaned with files := cleaned.files.makeDirs spool }
  have hcargo : (runCargo cargo (some spool) (config.checkArgs manifest)).run opened =
      (.error (checkFailure config diagnostics), afterCheck config manifest cleaned after) := by
    rw [runCargo_check h, if_neg hstatus]
    rfl
  exact (Run.bind_ok (t := opened) rfl).trans (Run.bind_error hcargo)

theorem build_run_of_read (hstatus : status = 0) {invs : List Invocation}
    (hread : Spool.read after spool = .ok invs) :
    (ofCargo cargo config manifest).build.run cleaned =
      (.ok (.inOrder (invs.map .invocation)), afterCheck config manifest cleaned after) := by
  let opened : Session := { cleaned with files := cleaned.files.makeDirs spool }
  have hcargo : (runCargo cargo (some spool) (config.checkArgs manifest)).run opened =
      (.ok (), afterCheck config manifest cleaned after) := by
    rw [runCargo_check h, if_pos hstatus]
    rfl
  have hinvs : (Run.ofExcept (Spool.read after spool)).run
      (afterCheck config manifest cleaned after) =
        (.ok invs, afterCheck config manifest cleaned after) := by
    rw [Run.run_ofExcept, hread]
  have hscript : (⟨invs.map fun inv => .deliver (.invocation inv) false, none⟩ : BuildScript) =
      .inOrder (invs.map .invocation) := by
    simp [BuildScript.inOrder, Function.comp_def]
  rw [← hscript]
  exact (Run.bind_ok (t := opened) rfl).trans ((Run.bind_ok hcargo).trans
    ((Run.bind_ok (Run.run_files _)).trans (Run.bind_ok hinvs)))

end

theorem entry_makeDirs_spool {fs : FileSystem} {entries : Entries}
    (htmp : fs.entry ["tmp"] = .ok (.dir entries))
    (hnew : entries.lookup "crate-safety-audit-spool" = none) :
    (fs.makeDirs spool).entry spool.parts = .ok (.dir .nil) ∧ (fs.makeDirs spool).cwd = fs.cwd ∧
      ∀ name ≠ "tmp", ∀ rest,
        (fs.makeDirs spool).entry (name :: rest) = fs.entry (name :: rest) := by
  have hfound : fs.find ((Path.atRoot []).child "tmp") true = .ok (["tmp"], .dir entries) :=
    FileSystem.find_atRoot (by decide) htmp (by decide) (Node.dir_ne_link entries)
  have hmakeTmp : FileSystem.makeDir (fs, .atRoot []) "tmp" = (fs, .atRoot ["tmp"]) :=
    FileSystem.makeDir_of_find hfound
  obtain ⟨above, hmakeAbove, habove, hcwdAbove, hothersAbove⟩ := FileSystem.exists_makeDir htmp
    (by decide) ⟨by decide, by decide⟩ (by decide) (by decide) hnew
  obtain ⟨made, hmake, hentry, hcwd, hothers⟩ := FileSystem.exists_makeDir habove (by decide)
    (⟨by decide, by decide⟩ : FileSystem.Fits "records") (by decide) (by decide) rfl
  have hdirs : fs.makeDirs spool = made := by
    have hparts : spool.parts = ["tmp", "crate-safety-audit-spool", "records"] := rfl
    have hanchor : (⟨spool.anchor, []⟩ : Path) = .atRoot [] := rfl
    have hpath : (Path.atRoot ["tmp"]).child "crate-safety-audit-spool" =
        .atRoot ["tmp", "crate-safety-audit-spool"] := rfl
    rw [FileSystem.makeDirs_eq, hanchor, hparts, List.foldl_cons, List.foldl_cons, List.foldl_cons,
      List.foldl_nil, hmakeTmp, hmakeAbove, hpath]
    exact congrArg Prod.fst hmake
  rw [hdirs]
  refine ⟨hentry, hcwd.trans hcwdAbove, fun name hname rest => ?_⟩
  exact (hothers "tmp" rfl name hname rest).trans (hothersAbove "tmp" rfl name hname rest)

/-- Deliveries of what was read from a spool leave the context that records it directly, whichever
worker makes which of them. -/
theorem leaves_recording {workers : Nat} {invs published : List Invocation}
    (hperm : invs.Perm published)
    (h : Pool.Leaves workers (invs.map .invocation) outcome) :
    ∃ context, outcome = .ok context ∧ context.Alike (.recording published) := by
  have hnone : Delivery.firstFault (invs.map .invocation) = none := by
    rw [Delivery.firstFault_eq_none_iff]
    intro delivery hdelivery
    obtain ⟨inv, -, rfl⟩ := List.mem_map.mp hdelivery
    rfl
  obtain ⟨context, hok, hgathers, -⟩ := h.recorded hnone
  have hinvs : (invs.map Delivery.invocation).filterMap (·.invocation?) = invs := by
    simp [List.filterMap_map, Delivery.invocation?]
  rw [hinvs] at hgathers
  exact ⟨context, hok, (hgathers.perm hperm).alike (BuildContext.gathers_recording published)⟩

-- ---------------------------------------------------------------------------
-- A build with an interrupted run
-- ---------------------------------------------------------------------------

namespace Interrupted

def files : FileSystem := ⟨.cons "lib.rs" (.file []) (.cons "tmp" (.dir .nil) .nil), []⟩

def first : Spool.Writer :=
  ⟨⟨["--crate-name", "a", "--out-dir", "out", "lib.rs"], .atRoot []⟩, "2"⟩

def second : Spool.Writer := ⟨⟨["--out-dir=other", "--test"], .atRoot []⟩, "1"⟩

def recorded : Invocation :=
  ⟨.atRoot [], [.atRoot ["lib.rs"]], some (.atRoot ["out"]), some "a", [], false⟩

def unfinished : Invocation := ⟨.atRoot [], [], some (.atRoot ["other"]), none, [], true⟩

/-- A cargo whose builds leave the file system in a state. -/
def checking (after : FileSystem) (status : Int) : Cargo := fun fs spool? _ =>
  match spool? with
  | none => .ok (fs, .exited 0 "" "")
  | some _ => .ok (after, .exited status "" "interrupted")

theorem opened : Spool.Opened spool.parts [first, second] (files.makeDirs spool) := by
  obtain ⟨hempty, hcwd, -⟩ := entry_makeDirs_spool (rfl : files.entry ["tmp"] = _) rfl
  refine ⟨hempty, by decide, by decide, by decide, by decide, ?_, ?_⟩
  · rw [hcwd]
    exact nofun
  · intro w hw
    refine Path.spelled_iff.mpr ?_
    simp only [List.mem_cons, List.not_mem_nil, or_false] at hw
    rcases hw with rfl | rfl <;> exact nofun

theorem invocation_first : first.run.invocation (files.makeDirs spool) = .ok recorded := by
  have hsettings : Invocation.settings first.run.args =
      [.value .crateName (some "a"), .value .outDir (some "out"), .source "lib.rs"] := by
    decide +kernel
  have hout : (Path.atRoot []).join (.ofString "out") = .atRoot ["out"] := by decide +kernel
  have hpath : (Path.atRoot []).join (.ofString "lib.rs") = .atRoot ["lib.rs"] := by
    decide +kernel
  obtain ⟨-, -, hothers⟩ := entry_makeDirs_spool (rfl : files.entry ["tmp"] = _) rfl
  have hresolve : (files.makeDirs spool).resolve (.atRoot ["lib.rs"]) = .ok (.atRoot ["lib.rs"]) :=
    FileSystem.resolve_atRoot (by decide) (hothers "lib.rs" (by decide) []) (by decide)
      (Node.file_ne_link [])
  rw [CompilerRun.invocation, Invocation.ofArgs, hsettings]
  show ((files.makeDirs spool).resolve ((Path.atRoot []).join (.ofString "lib.rs"))).map
    (fun root => Invocation.mk (.atRoot []) [root]
      (some ((Path.atRoot []).join (.ofString "out"))) (some "a") [] false) >>= pure = _
  rw [hpath, hresolve, hout]
  rfl

theorem invocation_second (fs : FileSystem) : second.run.invocation fs = .ok unfinished := by
  have hsettings : Invocation.settings second.run.args =
      [.value .outDir (some "other"), .test] := by decide +kernel
  have hout : (Path.atRoot []).join (.ofString "other") = .atRoot ["other"] := by decide +kernel
  rw [CompilerRun.invocation, Invocation.ofArgs, hsettings]
  exact congrArg (fun dir => Except.ok (Invocation.mk (.atRoot []) [] (some dir) none [] true)) hout

/-- One run comes to the end. The other stops when the beginning of its record is written. -/
theorem exists_reaches : ∃ s, Spool.Reaches spool.parts [first, second]
    (.start (files.makeDirs spool)) s ∧ s.phase first.name = .published recorded ∧
      s.phase second.name = .writing unfinished := by
  have hsecond : second ∈ [first, second] := List.mem_cons_of_mem _ List.mem_cons_self
  obtain ⟨now, -, hfirst⟩ := Spool.exists_observe opened (.start opened) List.mem_cons_self rfl
    invocation_first rfl
  let s := (Spool.State.start (files.makeDirs spool)).enter first.name
    (.published recorded) now
  have hnames : first.name ≠ second.name := by decide
  have hwaiting : s.phase second.name = .waiting := Spool.State.phase_enter_of_ne _ hnames.symm _ _
  have hbegin : Spool.Step spool.parts [first, second] s
      (s.enter second.name (.writing unfinished) now) :=
    .begin hsecond hwaiting (invocation_second now) rfl
  obtain ⟨contents, hholds, -⟩ := (Spool.Follows.of_reaches opened hfirst).keeps
  obtain ⟨files', hwrite, -⟩ :=
    hholds.writeBytes (opened.fits hsecond) ((Spool.bytesOf unfinished).take 10)
  have hpart : Spool.Step spool.parts [first, second]
      (s.enter second.name (.writing unfinished) now)
      (s.enter second.name (.writing unfinished) files') := by
    have hphase := s.phase_enter second.name (.writing unfinished) now
    simpa using Spool.Step.part hsecond hphase 10 hwrite
  refine ⟨_, (hfirst.tail hbegin).tail hpart, ?_, s.phase_enter ..⟩
  simp [s, Spool.State.phase_enter_of_ne _ hnames]

end Interrupted

/-- Recording through a spool comes to the same as recording directly.

In every state that the runs can reach, in whichever order they take their steps and wherever some
of them stop, the spool shows the records of those that have come to the end. A record comes back
from its text unchanged. After a build that succeeds the context is the one in which these
invocations are recorded directly, and a build that fails delivers nothing. -/
theorem recording_through_spool :
    (∀ here writers files, Spool.Opened here writers files →
      ∀ s, Spool.Reaches here writers (.start files) s → Spool.Faithful here writers files s) ∧
    (∀ inv : Invocation, inv.Spelled →
      (Json.read? (Json.write .compact inv.toJson)).map Invocation.ofJson = some (.ok inv)) ∧
    ∀ cargo config manifest session cleaned after status output diagnostics,
      (ofCargo cargo config manifest).clean.run session = (.ok (), cleaned) →
      cargo (cleaned.files.makeDirs spool) (some spool) (config.checkArgs manifest) =
        .ok (after, .exited status output diagnostics) →
      (status = 0 → ∀ writers s, Spool.Opened spool.parts writers (cleaned.files.makeDirs spool) →
        Spool.Reaches spool.parts writers (.start (cleaned.files.makeDirs spool)) s →
        s.files = after →
        (∃ context,
          ((interceptedBuild (ofCargo cargo config manifest)).run session).1 = .ok context ∧
            context.Alike (.recording (s.published writers))) ∧
        ∃ invs : List Invocation, ((ofCargo cargo config manifest).build.run cleaned).1 =
            .ok (.inOrder (invs.map .invocation)) ∧
          ∀ workers outcome, Pool.Leaves workers (invs.map .invocation) outcome →
            ∃ context, outcome = .ok context ∧
              context.Alike (.recording (s.published writers))) ∧
      (status ≠ 0 →
        ((interceptedBuild (ofCargo cargo config manifest)).run session).1 =
            .error (checkFailure config diagnostics) ∧
          ((ofCargo cargo config manifest).scriptIn cleaned).course.delivered = []) := by
  refine ⟨fun here writers files hopened s hreaches =>
    (Spool.Follows.of_reaches hopened hreaches).faithful hopened,
    fun inv h => inv.read?_write_toJson h, ?_⟩
  intro cargo config manifest session cleaned after status output diagnostics hclean hcargo
  refine ⟨?_, fun hstatus => ?_⟩
  · rintro rfl writers s hopened hreaches rfl
    have hfollows := Spool.Follows.of_reaches hopened hreaches
    obtain ⟨invs, hread, hperm⟩ := hfollows.exists_read hopened
    have hbuild : ((ofCargo cargo config manifest).build.run cleaned).1 =
        .ok (.inOrder (invs.map .invocation)) :=
      congrArg Prod.fst (build_run_of_read hcargo rfl hread)
    refine ⟨?_, invs, hbuild, fun workers outcome => leaves_recording hperm⟩
    rw [interceptedBuild_run _ hclean, scriptIn, hbuild]
    exact leaves_recording hperm (Pool.leaves_inOrder Nat.one_pos _)
  · have hscript : (ofCargo cargo config manifest).scriptIn cleaned =
        ⟨[], some (checkFailure config diagnostics)⟩ := by
      rw [scriptIn, build_run_of_failed hcargo hstatus]
    rw [interceptedBuild_run _ hclean, hscript]
    exact ⟨rfl, rfl⟩

open Interrupted in
theorem recording_through_spool_interrupted :
    Spool.Opened spool.parts [first, second] (files.makeDirs spool) ∧ recorded.Spelled ∧
    (Json.read? (Json.write .compact recorded.toJson)).map Invocation.ofJson =
      some (.ok recorded) ∧
    ∃ s, Spool.Reaches spool.parts [first, second] (.start (files.makeDirs spool)) s ∧
      s.phase second.name = .writing unfinished ∧
      Spool.read s.files spool = .ok [recorded] ∧
      (∃ context, ((interceptedBuild (ofCargo (checking s.files 0) .default (.atRoot []))).run
          (.ofFiles files)).1 = .ok context ∧ context.Alike (.recording [recorded])) ∧
      ((interceptedBuild (ofCargo (checking s.files 101) .default (.atRoot []))).run
        (.ofFiles files)).1 = .error (checkFailure .default "interrupted") := by
  obtain ⟨hspool, htext, hbuild⟩ := recording_through_spool
  obtain ⟨s, hreaches, hfirst, hsecond⟩ := exists_reaches
  have hpublished : s.published [first, second] = [recorded] := by
    simp [Spool.State.published, hfirst, hsecond, Spool.Phase.published?]
  have hspelled : recorded.Spelled :=
    ⟨by simp [recorded, Path.spelled_iff, Path.atRoot], by simp [recorded, Path.spelled_iff]; decide,
      by simp [recorded, Path.spelled_iff]; decide⟩
  have hclean : ∀ status, (ofCargo (checking s.files status) .default (.atRoot [])).clean.run
      (.ofFiles files) = (.ok (), ⟨files, [BuildConfig.default.cleanArgs (.atRoot [])], []⟩) :=
    fun _ => rfl
  obtain ⟨invs, hread, hperm⟩ := (hspool _ _ _ opened s hreaches).reads
  rw [hpublished, List.perm_singleton] at hperm
  subst hperm
  obtain ⟨hok, -⟩ := (hbuild _ _ _ _ _ _ _ _ _ (hclean 0) rfl).1 rfl _ s opened hreaches rfl
  rw [hpublished] at hok
  obtain ⟨hfailed, -⟩ := (hbuild _ _ _ _ _ _ _ _ _ (hclean 101) rfl).2 (by decide)
  exact ⟨opened, hspelled, htext recorded hspelled, s, hreaches, hsecond, hread, hok, hfailed⟩

end BuildDriver

end UnsafeAudit
