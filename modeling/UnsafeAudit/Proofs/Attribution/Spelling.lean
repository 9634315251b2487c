import UnsafeAudit.Proofs.Attribution.Roots
import UnsafeAudit.Proofs.Build.CompiledFiles
import UnsafeAudit.Proofs.Build.Recorded
import UnsafeAudit.Proofs.FileSystem.Canonical

/-!
# Entry points by any spelling

A build names files on compiler command lines and in dependency listings, build
metadata names them as target roots, and each may spell the path of one file in
its own way. No target root that the build names is lost by that
(`targetFiles_of_mentions`).
-/

namespace UnsafeAudit.FileSystem

open DepInfo (Declares)

variable {fs : FileSystem} {runs : List CompilerRun} {context : BuildContext} {root : Path}
  {package : Package} {loc : Location} {compiled : List Path}

/-- A build names what is at a location: the path of a source argument of one of its compiler runs
arrives there, or that of a dependency in a listing below one of its output directories. -/
def Mentions (fs : FileSystem) (runs : List CompilerRun) (context : BuildContext) (root : Path)
    (loc : Location) : Prop :=
  (∃ run ∈ runs, ∃ source ∈ run.sources, fs.ArrivesAt source loc) ∨
    ∃ outDir ∈ context.outDirs, ∃ dependency, Declares fs outDir dependency ∧
      fs.ArrivesAt (root.join (.ofString dependency)) loc

theorem atRoot_injective {loc loc' : Location} (h : Path.atRoot loc = .atRoot loc') : loc = loc' :=
  congrArg Path.parts h

theorem atRoot_mem_of_mentions (hfs : fs.WellFormed) (hrecords : context.Records fs runs)
    (h : fs.compiledFiles context root = .ok compiled)
    (hmentions : fs.Mentions runs context root loc) : .atRoot loc ∈ compiled := by
  rw [(mem_of_compiledFiles_ok h).2, hrecords.mem_roots_iff]
  rcases hmentions with ⟨run, hrun, source, hsource, harrives⟩ |
    ⟨outDir, houtDir, dependency, hdeclares, harrives⟩
  · exact .inl ⟨run, hrun, source, hsource, resolve_of_arrivesAt hfs harrives⟩
  · exact .inr ⟨outDir, houtDir, dependency, hdeclares,
      DepInfo.canonicalize_ok_iff.mpr ((resolveStrict_ok_iff hfs).mpr ⟨loc, harrives, rfl⟩)⟩

/-- A file of a build is named by it, unless a source argument arrives nowhere. -/
theorem mentions_of_atRoot_mem (hfs : fs.WellFormed)
    (hsources : ∀ run ∈ runs, ∀ source ∈ run.sources, ∃ loc, fs.ArrivesAt source loc)
    (hrecords : context.Records fs runs) (h : fs.compiledFiles context root = .ok compiled)
    (hmem : .atRoot loc ∈ compiled) : fs.Mentions runs context root loc := by
  rw [(mem_of_compiledFiles_ok h).2, hrecords.mem_roots_iff] at hmem
  rcases hmem with ⟨run, hrun, source, hsource, hresolve⟩ |
    ⟨outDir, houtDir, dependency, hdeclares, hcanonical⟩
  · obtain ⟨loc', harrives⟩ := hsources run hrun source hsource
    rw [resolve_of_arrivesAt hfs harrives] at hresolve
    obtain rfl := atRoot_injective (Except.ok.inj hresolve)
    exact .inl ⟨run, hrun, source, hsource, harrives⟩
  · obtain ⟨loc', harrives, heq⟩ :=
      (resolveStrict_ok_iff hfs).mp (DepInfo.canonicalize_ok_iff.mp hcanonical)
    obtain rfl := atRoot_injective heq
    exact .inr ⟨outDir, houtDir, dependency, hdeclares, harrives⟩

/-- Compiler runs can be recorded if all their source arguments arrive somewhere. The target roots
of a package can be found among the files of the build if all have a canonical path. A root that
the build names, however each of the two spells its path, is there under one canonical path, as an
entry point if the target's kind is one. A root that the build does not name is left out, unless a
source argument arrives nowhere. -/
theorem targetFiles_of_mentions (hfs : fs.WellFormed) (hlocates : fs.Locates package.targets) :
    ((∀ run ∈ runs, ∀ source ∈ run.sources, ∃ loc, fs.ArrivesAt source loc) →
      ∃ invs, runs.mapM (·.invocation fs) = .ok invs) ∧
    ∀ context compiled, context.Records fs runs → fs.compiledFiles context root = .ok compiled →
      ∃ files, fs.targetFiles package (some compiled) = .ok files ∧
        ∀ target ∈ package.targets, ∀ loc, fs.ArrivesAt target.srcPath loc →
          (fs.Mentions runs context root loc → ∃ file ∈ files, file.path = .atRoot loc ∧
            (target.kind.role.isEntryPoint = true → file.role.isEntryPoint = true) ∧
            ∀ other ∈ files, other.path = .atRoot loc → other = file) ∧
          ((∀ run ∈ runs, ∀ source ∈ run.sources, ∃ loc, fs.ArrivesAt source loc) →
            ¬ fs.Mentions runs context root loc → ∀ file ∈ files, file.path ≠ .atRoot loc) := by
  refine ⟨fun hsources => CompilerRun.exists_invocations_iff.mpr fun run hrun source hsource => ?_,
    fun context compiled hrecords hcompiled => ?_⟩
  · obtain ⟨loc, harrives⟩ := hsources run hrun source hsource
    exact ⟨_, resolve_of_arrivesAt hfs harrives⟩
  refine ⟨_, targetFiles_eq hlocates _, fun target htarget loc harrives => ?_⟩
  have hcanonical : fs.canonical target.srcPath = .ok (.atRoot loc) :=
    canonical_of_arrivesAt hfs harrives
  constructor
  · intro hmentioned
    have hcompiled := atRoot_mem_of_mentions hfs hrecords hcompiled hmentioned
    let file : SourceFile := ⟨.atRoot loc, fs.roleOf package.targets (.atRoot loc)⟩
    refine ⟨file, mem_declaredRoots.mpr ⟨⟨target, htarget, hcanonical⟩, ?_, rfl⟩, rfl, ?_, ?_⟩
    · simpa using hcompiled
    · exact fun hentry => roleOf_isEntryPoint_iff.mpr ⟨target, htarget, hentry, hcanonical⟩
    · rintro ⟨path, role⟩ hother rfl
      obtain ⟨-, -, hrole⟩ := mem_declaredRoots.mp hother
      exact congrArg (SourceFile.mk _) hrole
  · rintro hsources hnot file hfile hpath
    obtain ⟨-, hkept, -⟩ := mem_declaredRoots.mp hfile
    rw [hpath] at hkept
    exact hnot (mentions_of_atRoot_mem hfs hsources hrecords hcompiled (by simpa using hkept))

def aliased : FileSystem :=
  ⟨.cons "src" (.dir (.cons "lib.rs" (.file []) .nil)) (.cons "code" (.link "src") .nil), []⟩

theorem arrivesAt_aliased :
    aliased.ArrivesAt (.atRoot ["code", "lib.rs"]) ["src", "lib.rs"] ∧
    aliased.ArrivesAt (.ofString "/src/../code/./lib.rs") ["src", "lib.rs"] := by
  have hdir : aliased.Names [] "src" (.dir (.cons "lib.rs" (.file []) .nil)) :=
    .of_entry rfl (by decide) (by decide)
  have hlink : aliased.Names [] "code" (.link "src") := .of_entry rfl (by decide) (by decide)
  have hfile : aliased.Names ["src"] "lib.rs" (.file []) := .of_entry rfl (by decide) (by decide)
  have hcode : aliased.Arrives 1 [] ["code", "lib.rs"] ["src", "lib.rs"] := by
    refine .follow hlink ?_ (.step hfile (Node.file_ne_link _) .done)
    rw [origin, ite_self]
    exact .step hdir (Node.dir_ne_link _) .done
  exact ⟨⟨1, hcode⟩, 1, .step hdir (Node.dir_ne_link _) (.up hcode)⟩

/-- The compiler is given the file through the link, and the target names it by going up from the
directory and through the link. -/
theorem targetFiles_of_mentions_aliased :
    let run : CompilerRun := ⟨["--crate-name", "app", "code/lib.rs"], .atRoot []⟩
    let target : Target := ⟨"app", .lib, .ofString "/src/../code/./lib.rs"⟩
    let package : Package :=
      ⟨⟨"app", "0.1.0", none, "app 0.1.0"⟩, .atRoot ["Cargo.toml"], none, none, [], [target]⟩
    let context : BuildContext := ⟨[.atRoot ["src", "lib.rs"]], [], 1⟩
    context.Records aliased [run] ∧
    aliased.compiledFiles context (.atRoot []) = .ok [.atRoot ["src", "lib.rs"]] ∧
    ∃ files, aliased.targetFiles package (some [.atRoot ["src", "lib.rs"]]) = .ok files ∧
      ∃ file ∈ files, file.path = .atRoot ["src", "lib.rs"] ∧ file.role.isEntryPoint = true := by
  intro run target package context
  obtain ⟨hsource, htarget⟩ := arrivesAt_aliased
  have hfs : aliased.WellFormed := ⟨by decide +kernel, _, rfl⟩
  have hsources : run.sources = [.atRoot ["code", "lib.rs"]] := by decide +kernel
  let inv : Invocation :=
    ⟨.atRoot [], [.atRoot ["src", "lib.rs"]], none, some "app", [], false⟩
  have hrecord : run.invocation aliased = .ok inv := by
    have hsettings : Invocation.settings run.args =
      [.value .crateName (some "app"), .source "code/lib.rs"] := by decide +kernel
    have hpath : (Path.atRoot []).join (.ofString "code/lib.rs") = .atRoot ["code", "lib.rs"] := by
      decide +kernel
    rw [CompilerRun.invocation, Invocation.ofArgs, hsettings]
    show (aliased.resolve ((Path.atRoot []).join (.ofString "code/lib.rs"))).map _ >>= _ = _
    rw [hpath, resolve_of_arrivesAt hfs hsource]
    rfl
  have hrecords : context.Records aliased [run] := by
    have hgathers : context.Gathers [inv] := BuildContext.Gathers.empty.record inv
    refine ⟨[inv], [inv], ?_, hgathers, List.Subset.refl _, fun _ h _ => h⟩
    rw [List.mapM_cons, hrecord]
    rfl
  have hcompiled : aliased.compiledFiles context (.atRoot []) =
      .ok [.atRoot ["src", "lib.rs"]] := by
    have hnone : Path.sort [] = [] := List.mergeSort_nil
    rw [compiledFiles_eq]
    show Except.map _ ((Path.sort []).mapM _) = _
    rw [hnone]
    rfl
  have hmentions : aliased.Mentions [run] context (.atRoot []) ["src", "lib.rs"] :=
    .inl ⟨run, List.mem_singleton_self _, .atRoot ["code", "lib.rs"], by simp [hsources], hsource⟩
  have hlocates : aliased.Locates package.targets :=
    List.forall_mem_singleton.mpr ⟨_, canonical_of_arrivesAt hfs htarget⟩
  obtain ⟨-, hroots⟩ := @targetFiles_of_mentions aliased [run] (.atRoot []) package hfs hlocates
  obtain ⟨files, hfiles, hall⟩ := hroots context _ hrecords hcompiled
  obtain ⟨file, hmem, hpath, hentry, -⟩ :=
    (hall target (List.mem_singleton_self _) _ htarget).1 hmentions
  exact ⟨hrecords, hcompiled, files, hfiles, file, hmem, hpath, hentry rfl⟩

end UnsafeAudit.FileSystem
