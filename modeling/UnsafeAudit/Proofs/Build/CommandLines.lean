import UnsafeAudit.Proofs.Build.OptionPositions
import UnsafeAudit.Proofs.FileSystem.Bare

/-!
# What a command line describes

An invocation is described by the settings of its command line alone
(`ofArgs_eq`): source roots and crate types add up, the last directory and the
last name hold. From this it follows how two command lines combine, that both
spellings of an option mean the same, and that the value of an option says
nothing else (`ofArgs_compositional`).
-/

namespace UnsafeAudit.Invocation

variable {args a b : List String} {arg text : String} {i : Nat} {which : ValueOption}
  {fs : FileSystem} {cwd : Path} {roots more : List Path} {setting : Setting}
  {first second : List Setting} {inv : Invocation}

-- ---------------------------------------------------------------------------
-- Arguments at option positions
-- ---------------------------------------------------------------------------

noncomputable def optionArguments (args : List String) : List String :=
  (optionPositions args).filterMap (args[·]?)

def isSource (arg : String) : Bool :=
  !"-".toList.isPrefixOf arg.toList && ".rs".toList.isSuffixOf arg.toList

/-- The command line has an option, in one of its two spellings. -/
def Gives (which : ValueOption) (args : List String) : Prop :=
  ∃ arg ∈ optionArguments args, arg = which.spelling ∨ ∃ text, arg = which.spelling ++ "=" ++ text

theorem mem_optionArguments :
    arg ∈ optionArguments args ↔ ∃ i, OptionPosition args i ∧ args[i]? = some arg := by
  simp only [optionArguments, List.mem_filterMap, mem_optionPositions]
  constructor
  · rintro ⟨i, ⟨-, hi⟩, harg⟩
    exact ⟨i, hi, harg⟩
  · rintro ⟨i, hi, harg⟩
    exact ⟨i, ⟨(List.getElem?_eq_some_iff.mp harg).1, hi⟩, harg⟩

theorem mem_settings_iff : setting ∈ settings args ↔
    ∃ i, OptionPosition args i ∧ settingAt? args i = some setting := by
  rw [settings_eq_filterMap, List.mem_filterMap]
  simp only [mem_optionPositions]
  constructor
  · rintro ⟨i, ⟨-, hi⟩, hsetting⟩
    exact ⟨i, hi, hsetting⟩
  · rintro ⟨i, hi, hsetting⟩
    obtain ⟨arg, harg, -⟩ := Option.bind_eq_some_iff.mp hsetting
    exact ⟨i, ⟨(List.getElem?_eq_some_iff.mp harg).1, hi⟩, hsetting⟩

theorem isSource_spelling (which : ValueOption) : isSource which.spelling = false := by
  cases which <;> rfl

theorem isSource_joined (which : ValueOption) (text : String) :
    isSource (which.spelling ++ "=" ++ text) = false := by
  cases which <;> simp [isSource, ValueOption.spelling, String.toList_append]

/-- What an argument that is no value says, followed by `next`. -/
inductive Says (next : Option String) : String → Setting → Prop
  | spelled (which : ValueOption) : Says next which.spelling (.value which next)
  | joined (which : ValueOption) (text : String) :
    Says next (which.spelling ++ "=" ++ text) (.value which (some text))
  | test : Says next "--test" .test
  | source {name : String} : isSource name → Says next name (.source name)

theorem says_of_alone? {next : Option String} (h : alone? arg = some setting) :
    Says next arg setting := by
  rw [alone?] at h
  cases hjoined : joined? arg with
  | some found =>
    rw [hjoined] at h
    cases h
    exact joined?_eq_some_iff.mp hjoined ▸ .joined found.1 found.2
  | none =>
    simp only [hjoined, plain?] at h
    split at h
    · rename_i htest
      cases h
      exact htest ▸ .test
    · split at h
      · rename_i hsource
        cases h
        exact .source hsource
      · cases h

theorem alone?_source (h : isSource arg) : alone? arg = some (.source arg) := by
  have hjoined : joined? arg = none := by
    rw [Option.eq_none_iff_forall_ne_some]
    rintro ⟨which, text⟩ hfound
    rw [joined?_eq_some_iff.mp hfound, isSource_joined] at h
    cases h
  have htest : arg ≠ "--test" := by
    rintro rfl
    simp [isSource] at h
  simp only [alone?, hjoined, plain?, if_neg htest]
  exact if_pos h

theorem settingAt?_eq_some_iff : settingAt? args i = some setting ↔
    ∃ arg, args[i]? = some arg ∧ Says args[i + 1]? arg setting := by
  rw [settingAt?, Option.bind_eq_some_iff]
  refine exists_congr fun arg => and_congr_right fun _ => ⟨fun h => ?_, fun h => ?_⟩
  · cases hbare : bare? arg with
    | some which =>
      simp only [hbare] at h
      cases h
      exact bare?_eq_some_iff.mp hbare ▸ .spelled which
    | none =>
      simp only [hbare] at h
      exact says_of_alone? h
  · cases h with
    | spelled which => simp only [bare?_spelling]
    | joined which text => simp only [bare?_joined, alone?_joined]
    | test => rfl
    | source hsource =>
      have hbare : bare? arg = none := by
        rw [bare?_eq_none_iff]
        rintro which rfl
        rw [isSource_spelling] at hsource
        cases hsource
      simp only [hbare, alone?_source hsource]

theorem settingAt?_eq_test_iff : settingAt? args i = some .test ↔ args[i]? = some "--test" := by
  rw [settingAt?_eq_some_iff]
  constructor
  · rintro ⟨_, harg, ⟨⟩⟩
    exact harg
  · exact fun harg => ⟨_, harg, .test⟩

theorem exists_settingAt?_eq_value_iff : (∃ text, settingAt? args i = some (.value which text)) ↔
    ∃ arg, args[i]? = some arg ∧
      (arg = which.spelling ∨ ∃ text, arg = which.spelling ++ "=" ++ text) := by
  simp only [settingAt?_eq_some_iff]
  constructor
  · rintro ⟨_, arg, harg, _ | ⟨_, text⟩⟩
    · exact ⟨_, harg, .inl rfl⟩
    · exact ⟨_, harg, .inr ⟨text, rfl⟩⟩
  · rintro ⟨_, harg, rfl | ⟨text, rfl⟩⟩
    · exact ⟨_, _, harg, .spelled which⟩
    · exact ⟨_, _, harg, .joined which text⟩

theorem source?_settingAt? (cwd : Path) (args : List String) (i : Nat) :
    (settingAt? args i).bind (·.source? cwd) =
      (args[i]?.filter isSource).map fun arg => cwd.join (.ofString arg) := by
  ext path
  simp only [Option.bind_eq_some_iff, settingAt?_eq_some_iff, Option.map_eq_some_iff,
    Option.filter_eq_some_iff]
  constructor
  · rintro ⟨_, ⟨arg, harg, _ | _ | _ | hsource⟩, hpath⟩
    · cases hpath
    · cases hpath
    · cases hpath
    · exact ⟨arg, ⟨harg, hsource⟩, Option.some.inj hpath⟩
  · rintro ⟨arg, ⟨harg, hsource⟩, hpath⟩
    exact ⟨_, ⟨arg, harg, .source hsource⟩, congrArg some hpath⟩

theorem sources_eq (cwd : Path) (args : List String) :
    (settings args).filterMap (·.source? cwd) =
      ((optionArguments args).filter isSource).map fun arg => cwd.join (.ofString arg) := by
  rw [settings_eq_filterMap, optionArguments, List.filterMap_filterMap, List.filter_filterMap,
    List.map_filterMap]
  exact List.filterMap_congr fun i _ => source?_settingAt? cwd args i

theorem test_mem_settings_iff : .test ∈ settings args ↔ "--test" ∈ optionArguments args := by
  rw [mem_settings_iff, mem_optionArguments]
  simp only [settingAt?_eq_test_iff]

theorem gives_iff : Gives which args ↔ ∃ text, .value which text ∈ settings args := by
  simp only [Gives, mem_optionArguments, mem_settings_iff]
  constructor
  · rintro ⟨arg, ⟨i, hi, harg⟩, hgives⟩
    obtain ⟨text, hsetting⟩ := exists_settingAt?_eq_value_iff.mpr ⟨arg, harg, hgives⟩
    exact ⟨text, i, hi, hsetting⟩
  · rintro ⟨text, i, hi, hsetting⟩
    obtain ⟨arg, harg, hgives⟩ := exists_settingAt?_eq_value_iff.mp ⟨text, hsetting⟩
    exact ⟨arg, ⟨i, hi, harg⟩, hgives⟩

-- ---------------------------------------------------------------------------
-- What settings describe
-- ---------------------------------------------------------------------------

namespace Setting

@[simp] def outDir? (cwd : Path) : Setting → Option Path
  | .value .outDir (some text) => if text = "" then none else some (cwd.join (.ofString text))
  | _ => none

/-- The name in an option for it, which names nothing if it waits for its value. -/
@[simp] def crateName? : Setting → Option (Option String)
  | .value .crateName text => some text
  | _ => none

@[simp] def crateTypes : Setting → List String
  | .value .crateType text => crateTypesOf (text.getD "")
  | _ => []

end Setting

/-- The invocation that some settings and the roots among them describe: the last directory, the
last name, and all crate types. -/
def described (cwd : Path) (settings : List Setting) (roots : List Path) : Invocation where
  cwd := cwd
  sourceRoots := roots
  outDir := (settings.filterMap (·.outDir? cwd)).getLast?
  crateName := (settings.filterMap (·.crateName?)).getLast?.join
  crateTypes := settings.flatMap (·.crateTypes)
  isTest := settings.contains .test

theorem described_append (cwd : Path) (first second : List Setting) (roots more : List Path) :
    described cwd (first ++ second) (roots ++ more) =
      { cwd
        sourceRoots := roots ++ more
        outDir := (described cwd second more).outDir.or (described cwd first roots).outDir
        crateName := ((second.filterMap (·.crateName?)).getLast?.or
          (first.filterMap (·.crateName?)).getLast?).join
        crateTypes := (described cwd first roots).crateTypes ++
          (described cwd second more).crateTypes
        isTest := (described cwd first roots).isTest || (described cwd second more).isTest } := by
  simp [described]

theorem apply_described (fs : FileSystem) (cwd : Path) (settings : List Setting)
    (roots : List Path) (setting : Setting) :
    apply fs (described cwd settings roots) setting =
      (([setting].filterMap (·.source? cwd)).mapM fs.resolve).map fun more =>
        described cwd (settings ++ [setting]) (roots ++ more) := by
  simp only [described_append]
  cases setting with
  | test => exact congrArg Except.ok (by simp [described])
  | source text =>
    show (fs.resolve (cwd.join (.ofString text))).map _ =
      Except.map _ ([cwd.join (.ofString text)].mapM fs.resolve)
    rw [List.mapM_cons]
    cases fs.resolve (cwd.join (.ofString text)) with
    | error e => rfl
    | ok root => exact congrArg Except.ok (by simp [described])
  | value which text =>
    cases which with
    | crateName => exact congrArg Except.ok (by simp [described])
    | crateType => exact congrArg Except.ok (by simp [described])
    | outDir =>
      cases text with
      | none => exact congrArg Except.ok (by simp [described])
      | some text =>
        by_cases hempty : text = ""
        · subst hempty
          exact congrArg Except.ok (by simp [described])
        · rw [apply]
          · exact congrArg Except.ok (by simp [described, hempty])
          · simpa using hempty

theorem foldlM_apply_start (fs : FileSystem) (cwd : Path) (settings : List Setting) :
    settings.foldlM (apply fs) (start cwd) =
      ((settings.filterMap (·.source? cwd)).mapM fs.resolve).map (described cwd settings) := by
  induction settings using List.reverseRecOn with
  | nil => rfl
  | append_singleton settings setting ih =>
    rw [List.foldlM_append, ih, List.filterMap_append, List.mapM_append]
    cases (settings.filterMap (·.source? cwd)).mapM fs.resolve with
    | error e => rfl
    | ok roots =>
      show (apply fs (described cwd settings roots) setting >>= pure) = _
      rw [bind_pure, apply_described]
      cases ([setting].filterMap (·.source? cwd)).mapM fs.resolve <;> rfl

theorem ofArgs_eq (fs : FileSystem) (args : List String) (cwd : Path) :
    ofArgs fs args cwd = (((settings args).filterMap (·.source? cwd)).mapM fs.resolve).map
      (described cwd (settings args)) := foldlM_apply_start fs cwd (settings args)

theorem of_ofArgs_ok (h : ofArgs fs args cwd = .ok inv) : ∃ roots,
    ((settings args).filterMap (·.source? cwd)).mapM fs.resolve = .ok roots ∧
      inv = described cwd (settings args) roots := by
  rw [ofArgs_eq] at h
  cases hroots : ((settings args).filterMap (·.source? cwd)).mapM fs.resolve with
  | error e => rw [hroots] at h; cases h
  | ok roots => rw [hroots] at h; cases h; exact ⟨roots, rfl, rfl⟩

-- ---------------------------------------------------------------------------
-- Command lines one after another
-- ---------------------------------------------------------------------------

/-- An invocation says what two others say whose command lines stand one after the other, where
the later one comes from the arguments `b`. -/
structure Continues (b : List String) (first second inv : Invocation) : Prop where
  cwd_eq : inv.cwd = second.cwd
  sourceRoots_eq : inv.sourceRoots = first.sourceRoots ++ second.sourceRoots
  crateTypes_eq : inv.crateTypes = first.crateTypes ++ second.crateTypes
  isTest_iff : inv.isTest ↔ first.isTest ∨ second.isTest
  outDir_eq : inv.outDir = second.outDir.or first.outDir
  crateName_given : Gives .crateName b → inv.crateName = second.crateName
  crateName_kept : ¬ Gives .crateName b → inv.crateName = first.crateName

theorem filterMap_crateName?_eq_nil_iff :
    (settings args).filterMap (·.crateName?) = [] ↔ ¬ Gives .crateName args := by
  rw [gives_iff, List.filterMap_eq_nil_iff]
  constructor
  · rintro h ⟨text, hmem⟩
    cases h _ hmem
  · intro h setting hmem
    cases setting with
    | test | source => rfl
    | value which text =>
      cases which with
      | crateName => exact absurd ⟨text, hmem⟩ h
      | outDir | crateType => rfl

theorem ofArgs_append {first second : Invocation} (ha : ¬ Waiting a)
    (hfirst : ofArgs fs a cwd = .ok first) (hsecond : ofArgs fs b cwd = .ok second) :
    ∃ inv, ofArgs fs (a ++ b) cwd = .ok inv ∧ Continues b first second inv := by
  obtain ⟨roots, hroots, rfl⟩ := of_ofArgs_ok hfirst
  obtain ⟨more, hmore, rfl⟩ := of_ofArgs_ok hsecond
  refine ⟨described cwd (settings a ++ settings b) (roots ++ more), ?_, ?_⟩
  · rw [ofArgs_eq, settings_append ha, List.filterMap_append, List.mapM_append, hroots, hmore]
    rfl
  · rw [described_append]
    refine ⟨rfl, rfl, rfl, Bool.or_eq_true_iff, rfl, fun hgives => ?_, fun hgives => ?_⟩
    · have hnames : (settings b).filterMap (·.crateName?) ≠ [] :=
        fun hnil => filterMap_crateName?_eq_nil_iff.mp hnil hgives
      show (Option.or _ _).join = Option.join _
      rw [List.getLast?_eq_some_getLast hnames]
      rfl
    · have hnames := filterMap_crateName?_eq_nil_iff.mpr hgives
      show (Option.or _ _).join = Option.join _
      rw [hnames]
      rfl

-- ---------------------------------------------------------------------------
-- Options and their values
-- ---------------------------------------------------------------------------

def without (which : ValueOption) (inv : Invocation) : Invocation :=
  match which with
  | .outDir => { inv with outDir := none }
  | .crateName => { inv with crateName := none }
  | .crateType => { inv with crateTypes := [] }

theorem drop_eq_cons (h : args[i]? = some arg) : args.drop i = arg :: args.drop (i + 1) := by
  obtain ⟨hlt, rfl⟩ := List.getElem?_eq_some_iff.mp h
  exact List.drop_eq_getElem_cons hlt

theorem ofArgs_spelled_apart (hi : OptionPosition args i)
    (harg : args[i]? = some (which.spelling ++ "=" ++ text)) :
    ofArgs fs (args.take i ++ which.spelling :: text :: args.drop (i + 1)) cwd =
      ofArgs fs args cwd := by
  rw [ofArgs, ofArgs, settings_append hi.not_waiting_take, settings_pair, settings_split hi,
    drop_eq_cons harg, settings_alone (bare?_joined which text), alone?_joined]
  rfl

theorem without_described (cwd : Path) (first second : List Setting) (roots : List Path)
    (which : ValueOption) (old new : Option String) :
    (described cwd (first ++ .value which new :: second) roots).without which =
      (described cwd (first ++ .value which old :: second) roots).without which := by
  cases which <;> simp [described, without]

theorem settings_at_option (hi : OptionPosition args i) (harg : args[i]? = some which.spelling) :
    settings args =
      settings (args.take i) ++ .value which args[i + 1]? :: settings (args.drop (i + 2)) := by
  rw [settings_split hi, drop_eq_cons harg]
  cases hvalue : args[i + 1]? with
  | none =>
    rw [List.drop_eq_nil_of_le (List.getElem?_eq_none_iff.mp hvalue), settings_last,
      List.drop_eq_nil_of_le (by have := List.getElem?_eq_none_iff.mp hvalue; omega)]
    rfl
  | some text => rw [drop_eq_cons hvalue, settings_pair]

/-- The value of an option says nothing but that value, whatever it looks like. -/
theorem ofArgs_set_value (hi : OptionPosition args i) (harg : args[i]? = some which.spelling)
    (text : String) : (ofArgs fs (args.set (i + 1) text) cwd).map (·.without which) =
      (ofArgs fs args cwd).map (·.without which) := by
  have hbefore : ∀ j < i + 1, (args.set (i + 1) text)[j]? = args[j]? :=
    fun j hj => List.getElem?_set_ne (by omega)
  have hset := settings_at_option (hi.congr fun j hj => hbefore j (by omega))
    ((hbefore i (by omega)).trans harg)
  have htake : (args.set (i + 1) text).take i = args.take i :=
    List.take_set_of_le (by omega)
  have hdrop : (args.set (i + 1) text).drop (i + 2) = args.drop (i + 2) :=
    List.drop_set_of_lt (by omega)
  rw [htake, hdrop] at hset
  have hsources : ∀ value, (settings (args.take i) ++ .value which value ::
      settings (args.drop (i + 2))).filterMap (·.source? cwd) =
      (settings (args.take i) ++ settings (args.drop (i + 2))).filterMap (·.source? cwd) := by
    intro value
    rw [List.filterMap_append, List.filterMap_append]
    rfl
  rw [ofArgs_eq, ofArgs_eq, hset, settings_at_option hi harg, hsources, hsources]
  cases ((settings (args.take i) ++ settings (args.drop (i + 2))).filterMap
    (·.source? cwd)).mapM fs.resolve with
  | error e => rfl
  | ok roots => exact congrArg Except.ok (without_described cwd _ _ roots which _ _)

-- ---------------------------------------------------------------------------
-- Reading a command line
-- ---------------------------------------------------------------------------

/-- An invocation says what its command line says at option positions. -/
structure Reads (fs : FileSystem) (cwd : Path) (args : List String) (inv : Invocation) : Prop where
  eq_described :
    inv = described cwd ((optionPositions args).filterMap (settingAt? args)) inv.sourceRoots
  sourceRoots_eq : ((optionArguments args).filter isSource).mapM
    (fun arg => fs.resolve (cwd.join (.ofString arg))) = .ok inv.sourceRoots
  isTest_iff : inv.isTest ↔ "--test" ∈ optionArguments args

theorem reads_of_ofArgs_ok (h : ofArgs fs args cwd = .ok inv) : Reads fs cwd args inv := by
  obtain ⟨roots, hroots, rfl⟩ := of_ofArgs_ok h
  refine ⟨congrArg (described cwd · roots) (settings_eq_filterMap args), ?_, ?_⟩
  · rw [sources_eq, List.mapM_map] at hroots
    exact hroots
  · show (settings args).contains .test ↔ _
    rw [List.contains_iff_mem, test_mem_settings_iff]

theorem exists_ofArgs_iff : (∃ inv, ofArgs fs args cwd = .ok inv) ↔
    ∀ arg ∈ optionArguments args, isSource arg →
      ∃ path, fs.resolve (cwd.join (.ofString arg)) = .ok path := by
  let run : CompilerRun := ⟨args, cwd⟩
  have hsource : ∀ source, source ∈ run.sources ↔
      ∃ arg ∈ optionArguments args, isSource arg ∧ cwd.join (.ofString arg) = source := by
    intro source
    show source ∈ (settings args).filterMap (·.source? cwd) ↔ _
    rw [sources_eq]
    simp [and_assoc]
  refine CompilerRun.exists_invocation_iff.trans (?_ : (∀ source ∈ run.sources, _) ↔ _)
  simp only [hsource]
  constructor
  · exact fun h arg harg hname => h _ ⟨arg, harg, hname, rfl⟩
  · rintro h _ ⟨arg, harg, hname, rfl⟩
    exact h arg harg hname

/-- Command lines are read one after the other if the first leaves no option waiting. Both
spellings of an option mean the same, and its value says nothing else. Reading ends, and stops at
every argument that is not the value of an option. It fails only where a source file cannot be
resolved. -/
theorem ofArgs_compositional (fs : FileSystem) (cwd : Path) (args b : List String)
    (ha : ¬ Waiting a) :
    (∀ first second, ofArgs fs a cwd = .ok first → ofArgs fs b cwd = .ok second →
      ∃ inv, ofArgs fs (a ++ b) cwd = .ok inv ∧ Continues b first second inv) ∧
    (∀ i (which : ValueOption) text, OptionPosition args i →
      args[i]? = some (which.spelling ++ "=" ++ text) →
      ofArgs fs (args.take i ++ which.spelling :: text :: args.drop (i + 1)) cwd =
        ofArgs fs args cwd) ∧
    (∀ i (which : ValueOption) text, OptionPosition args i → args[i]? = some which.spelling →
      (ofArgs fs (args.set (i + 1) text) cwd).map (·.without which) =
        (ofArgs fs args cwd).map (·.without which)) ∧
    (∀ i, OptionPosition args i → i ≤ args.length) ∧
    (∀ i ≤ args.length, ValuePosition args i ↔ ¬ OptionPosition args i) ∧
    ((∃ inv, ofArgs fs args cwd = .ok inv) ↔ ∀ arg ∈ optionArguments args, isSource arg →
      ∃ path, fs.resolve (cwd.join (.ofString arg)) = .ok path) ∧
    ∀ inv, ofArgs fs args cwd = .ok inv → Reads fs cwd args inv :=
  ⟨fun _ _ => ofArgs_append ha, fun _ _ _ => ofArgs_spelled_apart,
    fun _ _ text hi harg => ofArgs_set_value hi harg text, fun _ => OptionPosition.le_length,
    fun _ => valuePosition_iff, exists_ofArgs_iff, fun _ => reads_of_ofArgs_ok⟩

theorem ofArgs_directory_then_name : ¬ Waiting ["--out-dir", "lib.rs"] ∧ ∃ inv,
    ofArgs .bare (["--out-dir", "lib.rs"] ++ ["--crate-name=--test", "main.rs"]) (.atRoot ["w"]) =
      .ok inv ∧
    Continues ["--crate-name=--test", "main.rs"]
      ⟨.atRoot ["w"], [], some (.atRoot ["w", "lib.rs"]), none, [], false⟩
      ⟨.atRoot ["w"], [.atRoot ["w", "main.rs"]], none, some "--test", [], false⟩ inv := by
  have hoption : ["--out-dir", "lib.rs"][0]? = some ValueOption.outDir.spelling := rfl
  have hdone : ¬ Waiting ["--out-dir", "lib.rs"] :=
    not_waiting_iff.mpr (OptionPosition.start.pair hoption rfl)
  have hsources : (settings ["--crate-name=--test", "main.rs"]).filterMap
      (·.source? (.atRoot ["w"])) = [.atRoot ["w", "main.rs"]] := by decide +kernel
  have hresolve : FileSystem.bare.resolve (.atRoot ["w", "main.rs"]) =
      .ok (.atRoot ["w", "main.rs"]) := FileSystem.resolve_bare (by decide)
  have hsecond : ofArgs .bare ["--crate-name=--test", "main.rs"] (.atRoot ["w"]) =
      .ok ⟨.atRoot ["w"], [.atRoot ["w", "main.rs"]], none, some "--test", [], false⟩ := by
    rw [ofArgs_eq, hsources, List.mapM_cons, hresolve]
    decide +kernel
  exact ⟨hdone, (ofArgs_compositional .bare (.atRoot ["w"]) [] _ hdone).1 _ _ (by decide +kernel)
    hsecond⟩

end UnsafeAudit.Invocation
