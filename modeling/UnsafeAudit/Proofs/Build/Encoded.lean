import UnsafeAudit.Build.Spool
import UnsafeAudit.Proofs.Build.Recorded
import UnsafeAudit.Proofs.FileSystem.Names
import UnsafeAudit.Proofs.Json.Decoded
import UnsafeAudit.Proofs.Text.Utf8

/-!
# Records of invocations

An invocation whose paths some texts spell comes back from the bytes of its
record (`Spool.readRecord_bytesOf`).
-/

namespace UnsafeAudit

namespace Invocation

variable {inv : Invocation}

structure Spelled (inv : Invocation) : Prop where
  cwd : inv.cwd.Spelled
  sourceRoots : ∀ root ∈ inv.sourceRoots, root.Spelled
  outDir : ∀ outDir ∈ inv.outDir, outDir.Spelled

theorem ofJson_toJson (h : inv.Spelled) : ofJson inv.toJson = .ok inv := by
  have hroots : Decode.list Decode.path (Json.strings (inv.sourceRoots.map (·.toString))) =
      .ok inv.sourceRoots := by
    rw [Json.strings, List.map_map]
    exact Decode.list_map fun root hroot => Decode.path_toString (h.sourceRoots root hroot)
  have htest : Decode.bool (.bool inv.isTest) = .ok inv.isTest := rfl
  simp only [ofJson, toJson, Decode.record]
  rw [Decode.required_ok rfl (Decode.path_toString h.cwd),
    Decode.defaulted_ok rfl hroots,
    Decode.defaulted_ok rfl (Decode.nullable_path h.outDir),
    Decode.defaulted_ok rfl (Decode.nullable_string inv.crateName),
    Decode.defaulted_ok rfl (Decode.list_strings inv.crateTypes),
    Decode.defaulted_ok rfl htest]
  rfl

theorem legible_toJson (inv : Invocation) : inv.toJson.Legible := by
  have hroots := Json.legible_strings (inv.sourceRoots.map (·.toString))
  have hdir : (Json.ofOption (fun outDir : Path => .str outDir.toString) inv.outDir).Legible :=
    Json.legible_ofOption fun _ _ => trivial
  have hname : (Json.ofOption .str inv.crateName).Legible :=
    Json.legible_ofOption fun _ _ => trivial
  have htypes := Json.legible_strings inv.crateTypes
  exact ⟨by simp, trivial, hroots, hdir, hname, htypes, trivial, trivial⟩

theorem read?_write_toJson (h : inv.Spelled) :
    (Json.read? (Json.write .compact inv.toJson)).map ofJson = some (.ok inv) := by
  rw [Json.read?_write inv.legible_toJson, Option.map_some, ofJson_toJson h]

-- ---------------------------------------------------------------------------
-- Command lines
-- ---------------------------------------------------------------------------

section
variable {fs : FileSystem} {setting : Setting} {settings : List Setting} {inv' : Invocation}

theorem Spelled.apply (h : inv.Spelled) (hcwd : FileSystem.Kept fs.cwd)
    (happly : apply fs inv setting = .ok inv') : inv'.Spelled := by
  have hjoin : ∀ text, (inv.cwd.join (.ofString text)).Spelled :=
    fun text => h.cwd.join (Path.spelled_ofString text)
  cases setting with
  | value which text =>
    cases which with
    | crateName =>
      cases happly
      exact ⟨h.cwd, h.sourceRoots, h.outDir⟩
    | crateType =>
      cases happly
      exact ⟨h.cwd, h.sourceRoots, h.outDir⟩
    | outDir =>
      cases text with
      | none =>
        cases happly
        exact h
      | some text =>
        simp only [Invocation.apply] at happly
        split at happly
        · cases happly
          exact h
        · cases happly
          exact h
        · rename_i heq
          cases heq
          cases happly
          refine ⟨h.cwd, h.sourceRoots, ?_⟩
          rintro _ ⟨⟩
          exact hjoin text
  | test =>
    cases happly
    exact ⟨h.cwd, h.sourceRoots, h.outDir⟩
  | source text =>
    rw [Invocation.apply] at happly
    obtain ⟨root, hroot⟩ := exists_of_map_ok happly
    rw [hroot] at happly
    cases happly
    refine ⟨h.cwd, fun other hother => ?_, h.outDir⟩
    rcases List.mem_append.mp hother with hother | hother
    · exact h.sourceRoots other hother
    · rw [List.mem_singleton.mp hother]
      exact FileSystem.spelled_of_resolve_ok (hjoin text) hcwd hroot

theorem Spelled.foldlM_apply (h : inv.Spelled) (hcwd : FileSystem.Kept fs.cwd)
    (hfold : settings.foldlM (Invocation.apply fs) inv = .ok inv') : inv'.Spelled := by
  induction settings generalizing inv with
  | nil =>
    cases hfold
    exact h
  | cons setting rest ih =>
    rw [List.foldlM_cons] at hfold
    obtain ⟨next, happly, hrest⟩ := of_bind_ok hfold
    exact ih (h.apply hcwd happly) hrest

end

end Invocation

theorem CompilerRun.spelled_of_invocation_ok {fs : FileSystem} {run : CompilerRun}
    {inv : Invocation} (hcwd : FileSystem.Kept fs.cwd) (hrun : run.cwd.Spelled)
    (h : run.invocation fs = .ok inv) : inv.Spelled := by
  have hstart : (Invocation.start run.cwd).Spelled := ⟨hrun, nofun, nofun⟩
  exact hstart.foldlM_apply hcwd h

-- ---------------------------------------------------------------------------
-- Records
-- ---------------------------------------------------------------------------

namespace Spool

variable {fs : FileSystem} {spool : Path} {name : String} {inv : Invocation}

def bytesOf (inv : Invocation) : List UInt8 :=
  Text.Utf8.encode (Json.write .compact inv.toJson).toList

theorem readRecord_bytesOf (h : inv.Spelled)
    (hbytes : fs.readBytes (spool.child name) = .ok (bytesOf inv)) :
    readRecord fs spool name = .ok inv := by
  simp only [readRecord, hbytes, bytesOf, Text.Utf8.decode_encode, String.ofList_toList,
    Json.read?_write inv.legible_toJson, Invocation.ofJson_toJson h]

end Spool

end UnsafeAudit
