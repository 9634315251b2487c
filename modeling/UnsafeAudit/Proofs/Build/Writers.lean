import Mathlib.Logic.Relation
import UnsafeAudit.Proofs.Build.Encoded
import UnsafeAudit.Proofs.FileSystem.Writing

/-!
# Writers of a spool

Compiler runs leave their records in a spool directory side by side. Each reads
its command line, writes the text of its record to a temporary file, piece by
piece as it may be, and gives that file the name of the record. A run may stop
anywhere: it then takes no further step.

In every state that can be reached the spool holds, under the names of records,
the whole records of the runs that have come to the end (`Follows.exists_read`).
-/

namespace UnsafeAudit.Spool

open FileSystem (Fits HoldsFiles SameTree Kept)

/-- A compiler run with the name of the record that it leaves. -/
structure Writer where
  run : CompilerRun
  name : String

inductive Phase
  | waiting
  | writing (inv : Invocation)
  | written (inv : Invocation)
  | published (inv : Invocation)

namespace Phase

def invocation? : Phase → Option Invocation
  | waiting => none
  | writing inv | written inv | published inv => some inv

def published? : Phase → Option Invocation
  | published inv => some inv
  | _ => none

theorem published?_eq_some_iff {phase : Phase} {inv : Invocation} :
    phase.published? = some inv ↔ phase = .published inv := by
  cases phase <;> simp [published?]

end Phase

/-- The file system in the course of a build, and how far its compiler runs have come, each known
by the name of its record. -/
structure State where
  files : FileSystem
  phase : String → Phase

namespace State

def start (files : FileSystem) : State := ⟨files, fun _ => .waiting⟩

def enter (s : State) (name : String) (phase : Phase) (files : FileSystem) : State :=
  ⟨files, Function.update s.phase name phase⟩

def published (s : State) (writers : List Writer) : List Invocation :=
  writers.filterMap fun w => (s.phase w.name).published?

end State

inductive Step (here : Location) (writers : List Writer) : State → State → Prop
  /-- A run has read its command line, and it compiles something. -/
  | begin {s w inv} (hw : w ∈ writers) (hphase : s.phase w.name = .waiting)
      (hinv : w.run.invocation s.files = .ok inv) (hprobe : inv.isProbe = false) :
      Step here writers s (s.enter w.name (.writing inv) s.files)
  /-- The beginning of a record is in the temporary file. -/
  | part {s w inv files} (hw : w ∈ writers) (hphase : s.phase w.name = .writing inv) (count : Nat)
      (hwrite : s.files.writeBytes ((Path.atRoot here).child (temporaryName w.name))
        ((bytesOf inv).take count) = .ok files) :
      Step here writers s (s.enter w.name (.writing inv) files)
  | write {s w inv files} (hw : w ∈ writers) (hphase : s.phase w.name = .writing inv)
      (hwrite : writeTemporary s.files (.atRoot here) w.name inv = .ok files) :
      Step here writers s (s.enter w.name (.written inv) files)
  | publish {s w inv files} (hw : w ∈ writers) (hphase : s.phase w.name = .written inv)
      (hpublish : publish s.files (.atRoot here) w.name = .ok files) :
      Step here writers s (s.enter w.name (.published inv) files)
  /-- Anything else happens that touches neither the spool nor what the command lines say. -/
  | other {s files} (hspool : files.entry here = s.files.entry here)
      (hruns : ∀ w ∈ writers, w.run.invocation files = w.run.invocation s.files) :
      Step here writers s { s with files }

abbrev Reaches (here : Location) (writers : List Writer) : State → State → Prop :=
  Relation.ReflTransGen (Step here writers)

/-- A build starts with a new spool. Its compiler runs have records of different names, which leave
room for what the names of files add to them. -/
structure Opened (here : Location) (writers : List Writer) (files : FileSystem) : Prop where
  empty : files.entry here = .ok (.dir .nil)
  isPlain : ∀ name ∈ here, FileSystem.IsPlain name
  short : (Path.atRoot here).toString.utf8ByteSize + 1 + maxName < maxPath
  nodup : (writers.map (·.name)).Nodup
  named : ∀ w ∈ writers, '\x00' ∉ w.name.toList ∧ w.name.utf8ByteSize + 5 ≤ maxName
  cwd : Kept files.cwd
  spelled : ∀ w ∈ writers, w.run.cwd.Spelled

variable {here : Location} {writers : List Writer} {files : FileSystem} {s t : State} {w : Writer}
  {inv : Invocation} {name : String} {phase : Phase}

-- ---------------------------------------------------------------------------
-- Names in the spool
-- ---------------------------------------------------------------------------

theorem isRecord_iff : isRecord name = true ↔ ∃ stem, name = stem ++ suffix := by
  rw [isRecord, List.isSuffixOf_iff_suffix]
  constructor
  · rintro ⟨stem, hstem⟩
    refine ⟨String.ofList stem, String.toList_inj.mp ?_⟩
    simp [hstem]
  · rintro ⟨stem, rfl⟩
    exact ⟨stem.toList, by simp⟩

theorem toList_record (stem : String) : (stem ++ suffix).toList = stem.toList ++ suffix.toList := by
  simp

theorem toList_temporaryName (stem : String) :
    (temporaryName stem).toList = ('.' :: stem.toList) ++ ".tmp".toList := by
  simp [temporaryName]

theorem record_injective {stem stem' : String} (h : stem ++ suffix = stem' ++ suffix) :
    stem = stem' := by
  have hlist := congrArg String.toList h
  rw [toList_record, toList_record] at hlist
  exact String.toList_inj.mp (List.append_cancel_right hlist)

theorem temporaryName_injective {stem stem' : String}
    (h : temporaryName stem = temporaryName stem') : stem = stem' := by
  have hlist := congrArg String.toList h
  rw [toList_temporaryName, toList_temporaryName] at hlist
  exact String.toList_inj.mp (List.cons.inj (List.append_cancel_right hlist)).2

/-- A temporary file never has the name of a record. -/
theorem temporaryName_ne_record (stem stem' : String) : temporaryName stem ≠ stem' ++ suffix := by
  intro h
  have hlast : (temporaryName stem).toList.getLast? = (stem' ++ suffix).toList.getLast? := by rw [h]
  rw [toList_temporaryName, toList_record, List.getLast?_append, List.getLast?_append] at hlast
  simp [suffix] at hlast

theorem fits_of_length (hlength : 5 ≤ name.toList.length) (hnull : '\x00' ∉ name.toList)
    (hsize : name.utf8ByteSize ≤ maxName) : Fits name := by
  refine ⟨⟨?_, ?_, ?_, hnull⟩, hsize⟩
  all_goals
    rintro rfl
    exact absurd hlength (by decide)

theorem fits_temporary (hnull : '\x00' ∉ name.toList) (hsize : name.utf8ByteSize + 5 ≤ maxName) :
    Fits (temporaryName name) := by
  have hextra : ".".utf8ByteSize + ".tmp".utf8ByteSize = 5 := rfl
  refine fits_of_length ?_ ?_ ?_
  · simp [toList_temporaryName]
  · simpa [toList_temporaryName] using hnull
  · rw [temporaryName, String.utf8ByteSize_append, String.utf8ByteSize_append]
    omega

theorem fits_record (hnull : '\x00' ∉ name.toList) (hsize : name.utf8ByteSize + 5 ≤ maxName) :
    Fits (name ++ suffix) := by
  have hextra : suffix.utf8ByteSize = 5 := rfl
  refine fits_of_length ?_ ?_ ?_
  · simp [suffix]
  · simpa [suffix] using hnull
  · rw [String.utf8ByteSize_append]
    omega

-- ---------------------------------------------------------------------------
-- What the runs keep to
-- ---------------------------------------------------------------------------

/-- The contents of a spool: the records of the runs that have come to the end, and no other
records. What is in a temporary file is known when it is written to the end. -/
structure Keeps (phases : String → Phase) (contents : String → Option (List UInt8)) : Prop where
  records : ∀ name, contents (name ++ suffix) = (phases name).published?.map bytesOf
  temporary : ∀ name inv, phases name = .written inv →
    contents (temporaryName name) = some (bytesOf inv)

structure Follows (here : Location) (writers : List Writer) (files : FileSystem) (s : State) :
    Prop where
  keeps : ∃ contents, s.files.HoldsFiles here contents ∧ Keeps s.phase contents
  /-- What a run has read is what its command line said at the start. -/
  read : ∀ name inv, (s.phase name).invocation? = some inv → ∃ w ∈ writers, w.name = name ∧
    w.run.invocation files = .ok inv ∧ inv.isProbe = false
  runs : ∀ w ∈ writers, w.run.invocation s.files = w.run.invocation files

theorem invocation_eq {files' : FileSystem} (h : SameTree files files') (run : CompilerRun) :
    run.invocation files = run.invocation files' := by
  have happly : Invocation.apply files = Invocation.apply files' := by
    funext inv setting
    cases setting with
    | source text => rw [Invocation.apply, Invocation.apply, h.resolve_eq]
    | value which text => cases which <;> rfl
    | test => rfl
  rw [CompilerRun.invocation, CompilerRun.invocation, Invocation.ofArgs, Invocation.ofArgs, happly]

namespace Keeps

variable {phases : String → Phase} {contents contents' : String → Option (List UInt8)}

theorem enter (h : Keeps phases contents)
    (hothers : ∀ other, other ≠ name → contents' (other ++ suffix) = contents (other ++ suffix) ∧
      contents' (temporaryName other) = contents (temporaryName other))
    (hrecord : contents' (name ++ suffix) = phase.published?.map bytesOf)
    (htemporary : ∀ inv, phase = .written inv →
      contents' (temporaryName name) = some (bytesOf inv)) :
    Keeps (Function.update phases name phase) contents' where
  records other := by
    by_cases hother : other = name
    · subst other
      rw [Function.update_self, hrecord]
    · rw [Function.update_of_ne hother, (hothers other hother).1, h.records]
  temporary other inv hwritten := by
    by_cases hother : other = name
    · subst other
      exact htemporary inv (by simpa using hwritten)
    · rw [Function.update_of_ne hother] at hwritten
      rw [(hothers other hother).2, h.temporary other inv hwritten]

theorem begin (h : Keeps phases contents) (hphase : phases name = .waiting) (inv : Invocation) :
    Keeps (Function.update phases name (.writing inv)) contents := by
  refine h.enter (fun _ _ => ⟨rfl, rfl⟩) ?_ (by simp)
  rw [h.records, hphase]
  rfl

theorem write (h : Keeps phases contents) (hphase : phases name = .writing inv)
    (hnext : phase.published? = none) {bytes : List UInt8}
    (hwritten : ∀ inv, phase = .written inv → bytes = bytesOf inv) :
    Keeps (Function.update phases name phase)
      (Function.update contents (temporaryName name) (some bytes)) := by
  refine h.enter (fun other hother => ⟨?_, ?_⟩) ?_ (fun inv hinv => ?_)
  · exact Function.update_of_ne (temporaryName_ne_record name other).symm _ _
  · exact Function.update_of_ne (fun heq => hother (temporaryName_injective heq)) _ _
  · rw [Function.update_of_ne (temporaryName_ne_record name name).symm, h.records, hphase, hnext]
    rfl
  · rw [Function.update_self, hwritten inv hinv]

theorem publish (h : Keeps phases contents) (inv : Invocation) :
    Keeps (Function.update phases name (.published inv))
      (Function.update (Function.update contents (temporaryName name) none) (name ++ suffix)
        (some (bytesOf inv))) := by
  refine h.enter (fun other hother => ⟨?_, ?_⟩) (Function.update_self ..) (by simp)
  · rw [Function.update_of_ne fun heq => hother (record_injective heq),
      Function.update_of_ne (temporaryName_ne_record name other).symm]
  · rw [Function.update_of_ne (temporaryName_ne_record other name),
      Function.update_of_ne fun heq => hother (temporaryName_injective heq)]

end Keeps

-- ---------------------------------------------------------------------------
-- Steps
-- ---------------------------------------------------------------------------

theorem exists_writeTemporary {contents : String → Option (List UInt8)}
    (hholds : files.HoldsFiles here contents) (hfits : Fits (temporaryName name))
    (inv : Invocation) : ∃ now, writeTemporary files (.atRoot here) name inv = .ok now ∧
      now.HoldsFiles here (Function.update contents (temporaryName name) (some (bytesOf inv))) ∧
      SameTree files now :=
  hholds.writeBytes hfits (bytesOf inv)

theorem exists_publish {contents : String → Option (List UInt8)} {bytes : List UInt8}
    (hholds : files.HoldsFiles here contents) (hfits : Fits (temporaryName name))
    (hbytes : contents (temporaryName name) = some bytes) :
    ∃ now, publish files (.atRoot here) name = .ok now ∧
      now.HoldsFiles here (Function.update (Function.update contents (temporaryName name) none)
        (name ++ suffix) (some bytes)) ∧ SameTree files now := by
  obtain ⟨removed, hremove, hremoved, hsame⟩ := hholds.remove hfits hbytes
  obtain ⟨hput, hsame'⟩ := hremoved.put (name ++ suffix) bytes
  refine ⟨_, ?_, hput, hsame.trans hsame'⟩
  rw [publish, hholds.stat hfits hbytes, hremove]
  rfl

theorem Opened.fits (h : Opened here writers files) (hw : w ∈ writers) :
    Fits (temporaryName w.name) :=
  fits_temporary (h.named w hw).1 (h.named w hw).2

namespace Follows

theorem start (h : Opened here writers files) : Follows here writers files (.start files) where
  keeps := ⟨fun _ => none, ⟨.nil, ⟨h.empty, h.isPlain, h.short, .nil⟩, fun _ => rfl⟩, fun _ => rfl,
    nofun⟩
  read := nofun
  runs _ _ := rfl

theorem enter {now : FileSystem} (h : Follows here writers files s) (hw : w ∈ writers)
    (hsame : SameTree s.files now) {contents : String → Option (List UInt8)}
    (hholds : now.HoldsFiles here contents)
    (hkeeps : Keeps (Function.update s.phase w.name phase) contents)
    (hread : ∀ inv, phase.invocation? = some inv →
      w.run.invocation files = .ok inv ∧ inv.isProbe = false) :
    Follows here writers files (s.enter w.name phase now) where
  keeps := ⟨contents, hholds, hkeeps⟩
  read name inv hinv := by
    by_cases hname : name = w.name
    · subst name
      simp only [State.enter, Function.update_self] at hinv
      exact ⟨w, hw, rfl, hread inv hinv⟩
    · simp only [State.enter, Function.update_of_ne hname] at hinv
      exact h.read name inv hinv
  runs v hv := (invocation_eq hsame v.run).symm.trans (h.runs v hv)

theorem of_mem (hopened : Opened here writers files) (h : Follows here writers files s)
    (hw : w ∈ writers) (hinv : (s.phase w.name).invocation? = some inv) :
    w.run.invocation files = .ok inv ∧ inv.isProbe = false := by
  obtain ⟨v, hv, hname, hread⟩ := h.read w.name inv hinv
  rwa [List.inj_on_of_nodup_map hopened.nodup hv hw hname] at hread

theorem step (hopened : Opened here writers files) (h : Follows here writers files s)
    (hstep : Step here writers s t) : Follows here writers files t := by
  obtain ⟨contents, hholds, hkeeps⟩ := h.keeps
  cases hstep with
  | begin hw hphase hinv hprobe =>
    refine h.enter hw (.refl _) hholds (hkeeps.begin hphase _) ?_
    rintro _ ⟨⟩
    exact ⟨(h.runs _ hw).symm.trans hinv, hprobe⟩
  | @part w inv now hw hphase count hwrite =>
    obtain ⟨_, heq, hnow, hsame⟩ := hholds.writeBytes (hopened.fits hw) ((bytesOf inv).take count)
    cases hwrite.symm.trans heq
    have hinv := h.of_mem hopened hw (by rw [hphase]; rfl)
    exact h.enter hw hsame hnow (hkeeps.write hphase rfl nofun) (by rintro _ ⟨⟩; exact hinv)
  | @write w inv now hw hphase hwrite =>
    obtain ⟨_, heq, hnow, hsame⟩ := exists_writeTemporary hholds (hopened.fits hw) inv
    cases hwrite.symm.trans heq
    have hinv := h.of_mem hopened hw (by rw [hphase]; rfl)
    refine h.enter hw hsame hnow (hkeeps.write hphase rfl ?_) (by rintro _ ⟨⟩; exact hinv)
    rintro _ ⟨⟩
    rfl
  | @publish w inv now hw hphase hpublish =>
    obtain ⟨_, heq, hnow, hsame⟩ := exists_publish hholds (hopened.fits hw)
      (hkeeps.temporary w.name inv hphase)
    cases hpublish.symm.trans heq
    have hinv := h.of_mem hopened hw (by rw [hphase]; rfl)
    exact h.enter hw hsame hnow (hkeeps.publish inv) (by rintro _ ⟨⟩; exact hinv)
  | other hspool hruns =>
    exact ⟨⟨contents, hholds.of_entry_eq hspool, hkeeps⟩, h.read,
      fun w hw => (hruns w hw).trans (h.runs w hw)⟩

theorem of_reaches (hopened : Opened here writers files)
    (h : Reaches here writers (.start files) s) : Follows here writers files s := by
  induction h with
  | refl => exact start hopened
  | tail _ hstep ih => exact ih.step hopened hstep

end Follows

-- ---------------------------------------------------------------------------
-- Reading
-- ---------------------------------------------------------------------------

def State.records (s : State) (writers : List Writer) : List (String × Invocation) :=
  writers.filterMap fun w => (s.phase w.name).published?.map (w.name ++ suffix, ·)

theorem published_eq (s : State) (writers : List Writer) :
    s.published writers = (s.records writers).map (·.2) := by
  rw [State.published, State.records, List.map_filterMap]
  simp [Function.comp_def]

theorem mem_records {record : String × Invocation} : record ∈ s.records writers ↔
    ∃ w ∈ writers, s.phase w.name = .published record.2 ∧ w.name ++ suffix = record.1 := by
  obtain ⟨name, inv⟩ := record
  simp [State.records, Phase.published?_eq_some_iff]

theorem nodup_records (hnodup : (writers.map (·.name)).Nodup) :
    ((s.records writers).map (·.1)).Nodup := by
  induction writers with
  | nil => exact List.nodup_nil
  | cons w rest ih =>
    obtain ⟨hnew, hrest⟩ := List.nodup_cons.mp hnodup
    cases hphase : (s.phase w.name).published? with
    | none => simpa [State.records, hphase] using ih hrest
    | some inv =>
      have hrecords : s.records (w :: rest) = (w.name ++ suffix, inv) :: s.records rest := by
        simp [State.records, hphase]
      rw [hrecords, List.map_cons, List.nodup_cons]
      refine ⟨fun hmem => ?_, ih hrest⟩
      obtain ⟨record, hrecord, hname⟩ := List.mem_map.mp hmem
      obtain ⟨v, hv, -, hvname⟩ := mem_records.mp hrecord
      exact hnew (List.mem_map.mpr ⟨v, hv, record_injective (hvname.trans hname)⟩)

namespace Follows

theorem perm_recordNames (hopened : Opened here writers files)
    (h : Follows here writers files s) :
    (recordNames s.files (.atRoot here)).Perm ((s.records writers).map (·.1)) := by
  obtain ⟨contents, hholds, hkeeps⟩ := h.keeps
  obtain ⟨entries, hstat, hnodup, hnames⟩ := hholds.exists_names
  rw [recordNames, hstat]
  refine (List.mergeSort_perm _ _).trans ?_
  rw [List.perm_ext_iff_of_nodup (hnodup.filter _) (nodup_records hopened.nodup)]
  intro name
  rw [List.mem_filter, hnames, isRecord_iff, List.mem_map]
  constructor
  · rintro ⟨⟨bytes, hbytes⟩, stem, rfl⟩
    rw [hkeeps.records] at hbytes
    obtain ⟨inv, hinv, -⟩ := Option.map_eq_some_iff.mp hbytes
    have hphase := Phase.published?_eq_some_iff.mp hinv
    obtain ⟨w, hw, rfl, -⟩ := h.read stem inv (by rw [hphase]; rfl)
    exact ⟨(w.name ++ suffix, inv), mem_records.mpr ⟨w, hw, hphase, rfl⟩, rfl⟩
  · rintro ⟨record, hrecord, rfl⟩
    obtain ⟨w, -, hphase, hname⟩ := mem_records.mp hrecord
    refine ⟨⟨bytesOf record.2, ?_⟩, w.name, hname.symm⟩
    rw [← hname, hkeeps.records, hphase]
    rfl

theorem readBytes (hopened : Opened here writers files) (h : Follows here writers files s)
    {record : String × Invocation} (hrecord : record ∈ s.records writers) :
    s.files.readBytes ((Path.atRoot here).child record.1) = .ok (bytesOf record.2) := by
  obtain ⟨contents, hholds, hkeeps⟩ := h.keeps
  obtain ⟨w, hw, hphase, hname⟩ := mem_records.mp hrecord
  have hnamed := hopened.named w hw
  rw [← hname]
  refine hholds.readBytes (fits_record hnamed.1 hnamed.2) ?_
  rw [hkeeps.records, hphase]
  rfl

theorem readRecord (hopened : Opened here writers files) (h : Follows here writers files s)
    {record : String × Invocation} (hrecord : record ∈ s.records writers) :
    readRecord s.files (.atRoot here) record.1 = .ok record.2 := by
  obtain ⟨w, hw, hphase, -⟩ := mem_records.mp hrecord
  obtain ⟨hinv, -⟩ := h.of_mem hopened hw (by rw [hphase]; rfl)
  exact readRecord_bytesOf
    (CompilerRun.spelled_of_invocation_ok hopened.cwd (hopened.spelled w hw) hinv)
    (h.readBytes hopened hrecord)

theorem exists_read (hopened : Opened here writers files) (h : Follows here writers files s) :
    ∃ invs, Spool.read s.files (.atRoot here) = .ok invs ∧ invs.Perm (s.published writers) := by
  have hrecords : ((s.records writers).map (·.1)).mapM (Spool.readRecord s.files (.atRoot here)) =
      .ok (s.published writers) := by
    rw [List.mapM_map, published_eq]
    exact mapM_ok fun record hrecord => h.readRecord hopened hrecord
  exact exists_mapM_of_perm (h.perm_recordNames hopened) hrecords

end Follows

end UnsafeAudit.Spool
