import PreviewShots.Command
import PreviewShots.Proofs.VisibilityFix

/-!
# What a run touches

A run of status 1 leaves the files alone. One of status 0 either generates, and then it
writes its outputs, the report if there is something to report and the manifest if it is
asked for, or it fixes what the report names (`Command.run_touches`).
-/

open PreviewShots.Task

namespace PreviewShots

variable {σ τ α : Type} {state state' : σ} {world world' later : World} {a : α}

-- ---------------------------------------------------------------------------
-- Tasks that recover
-- ---------------------------------------------------------------------------

namespace Task

theorem run_tryCatch (task : Task (StateM World) σ α)
    (handler : Fault → Task (StateM World) σ α) (state : σ) (world : World) :
    @Eq ((Except Fault α × σ) × World)
      ((tryCatch task handler : Task (StateM World) σ α) state world)
      (match task state world with
        | ((.ok a, state), world) => ((.ok a, state), world)
        | ((.error fault, state), world) => handler fault state world) := by
  simp only [tryCatch, tryCatchThe, MonadExceptOf.tryCatch, ExceptT.tryCatch, ExceptT.mk, bind,
    StateT.bind]
  rcases task state world with ⟨⟨_ | _, _⟩, _⟩ <;> rfl

theorem ends_tryCatch {task : Task (StateM World) σ α}
    {handler : Fault → Task (StateM World) σ α} :
    Ends (tryCatch task handler) state world a state' world' ↔
      Ends task state world a state' world' ∨ ∃ fault middle between,
        Fails task state world fault middle between ∧
        Ends (handler fault) middle between a state' world' := by
  simp only [Ends, Fails, run_tryCatch]
  rcases task state world with ⟨⟨fault | c, middle⟩, between⟩ <;> simp [and_assoc]

theorem fails_tryCatch {task : Task (StateM World) σ α}
    {handler : Fault → Task (StateM World) σ α} {fault : Fault} :
    Fails (tryCatch task handler) state world fault state' world' ↔
      ∃ cause middle between, Fails task state world cause middle between ∧
        Fails (handler cause) middle between fault state' world' := by
  simp only [Fails, run_tryCatch]
  rcases task state world with ⟨⟨cause | c, middle⟩, between⟩ <;> simp [and_assoc]

theorem ends_return {ρ : Type} {r : ρ} {e : Except ρ α} :
    Ends (EarlyReturnT.return r : EarlyReturnT ρ (Task (StateM World) σ) α) state world e state'
      world' ↔ e = .error r ∧ state' = state ∧ world' = world :=
  ends_pure

theorem fails_return {ρ : Type} {r : ρ} {fault : Fault} :
    ¬ Fails (EarlyReturnT.return r : EarlyReturnT ρ (Task (StateM World) σ) α) state world fault
      state' world' :=
  fails_pure

theorem ends_ofExcept {result : Except Fault α} :
    Ends (ofExcept result) state world a state' world' ↔
      result = .ok a ∧ state' = state ∧ world' = world := by
  simp [Ends, run_ofExcept, eq_comm, and_assoc]

theorem fails_ofExcept {result : Except Fault α} {fault : Fault} :
    Fails (ofExcept result) state world fault state' world' ↔
      result = .error fault ∧ state' = state ∧ world' = world := by
  simp [Fails, run_ofExcept, eq_comm, and_assoc]

end Task

-- ---------------------------------------------------------------------------
-- Worlds that are left alone
-- ---------------------------------------------------------------------------

/-- The files are as they were, and nothing was reported. -/
structure World.IsLeft (world world' : World) : Prop where
  files : world'.files = world.files
  warned : world'.warned = world.warned

namespace World

theorem IsLeft.refl (world : World) : IsLeft world world :=
  ⟨rfl, rfl⟩

theorem IsLeft.trans (h : IsLeft world world') (h' : IsLeft world' later) : IsLeft world later :=
  ⟨h'.files.trans h.files, h'.warned.trans h.warned⟩

theorem isLeft_of_ends_notify {notice : Notice} {u : Unit} (hnotice : notice.record? = none)
    (h : Ends (notify notice) state world u state' world') :
    state' = state ∧ IsLeft world world' := by
  obtain ⟨rfl, rfl⟩ := ends_notify.mp h
  exact ⟨rfl, rfl, by simp [warned, hnotice]⟩

/-- A task that tells of something and has its answer at once. -/
theorem isLeft_of_ends_told {notice : Notice} {answer : α} (hnotice : notice.record? = none)
    (h : Ends (do notify notice; return answer) state world a state' world') :
    a = answer ∧ state' = state ∧ IsLeft world world' := by
  obtain ⟨_, _, _, hnotify, hend⟩ := ends_bind.mp h
  obtain ⟨rfl, hleft⟩ := isLeft_of_ends_notify hnotice hnotify
  obtain ⟨rfl, rfl, rfl⟩ := ends_pure.mp hend
  exact ⟨rfl, rfl, hleft⟩

end World

namespace Command

-- ---------------------------------------------------------------------------
-- What is read
-- ---------------------------------------------------------------------------

/-- The characters of the file that the path names, if it can be read. -/
def charsAt? (tree : FileTree) (path : Text) : Option (List Char) :=
  if !Path.namesFile path || FileTree.pathLimit ≤ path.byteSize then none
  else ((tree.read? (Path.parse path)).bind String.fromUTF8?).map fun text =>
    Text.unifyNewlines text.toList

def valueAt? (tree : FileTree) (path : Text) : Option Json :=
  (charsAt? tree path).bind fun chars => (Json.parse (some Fault.digitLimit) chars).toOption

def optionsIn? (tree : FileTree) (path : Text) : Option Options :=
  match valueAt? tree path with
  | some (.object members) => some (optionsOf members)
  | _ => none

def tableIn? (tree : FileTree) (path : Text) : Option SymbolTable :=
  (valueAt? tree path).bind fun dump => (Dump.table dump).toOption

/-- The options of a run: those of the file, if there is to be one, with those of the
command line before them. -/
def optionsAt? (settings : Settings) (tree : FileTree) : Option Options :=
  match settings.optionsFile.given? with
  | none => override? settings []
  | some path => (optionsIn? tree path).bind (override? settings)

variable {path : Text}

theorem ends_readChars? {found : Option (List Char)}
    (h : Ends (readChars? path) state world found state' world') :
    found = charsAt? world.files path ∧ state' = state ∧ world' = world := by
  simp only [readChars?, ends_bind, ends_checkPath] at h
  obtain ⟨_, state, world, ⟨hpath, rfl, rfl⟩, hread⟩ := h
  unfold charsAt?
  split at hread
  · next hno =>
    rw [if_pos hno]
    exact ends_pure.mp hread
  next hnames =>
  rw [if_neg hnames]
  simp only [ends_bind, ends_tryCatch, ends_return, fails_bind, fails_return, ends_readChars,
    and_false, exists_false, or_false] at hread
  obtain ⟨_, _, _, ⟨_, _, _, ⟨-, ⟨bytes, text, hbytes, htext, rfl⟩, rfl, rfl⟩, rfl, rfl, rfl⟩ |
    ⟨fault, _, _, hfails, hcatch⟩, hend⟩ := hread
  · obtain ⟨rfl, rfl, rfl⟩ := ends_pure.mp hend
    simp [hbytes, htext]
  · obtain ⟨rfl, rfl, hcause⟩ := fails_readText (fails_bind.mpr (.inl hfails))
    split at hcatch
    · -- only a file that is missing or a directory is passed over
      obtain ⟨rfl, rfl, rfl⟩ := ends_return.mp hcatch
      obtain ⟨rfl, rfl, rfl⟩ := ends_pure.mp hend
      simp [show _ = none by simpa [hpath] using hcause]
    · simp [ends_throw] at hcatch

theorem ends_readJson {found : Option Json}
    (h : Ends (readJson path) state world found state' world') :
    found = valueAt? world.files path ∧ state' = state ∧ world' = world := by
  obtain ⟨chars, _, _, hread, hparse⟩ := ends_bind.mp h
  obtain ⟨rfl, rfl, rfl⟩ := ends_readChars? hread
  simp only [valueAt?]
  split at hparse
  · next hnone =>
    rw [hnone]
    exact ends_pure.mp hparse
  · next chars hchars =>
    rw [hchars]
    split at hparse
    · next value hvalue =>
      simpa [hvalue, Except.toOption] using ends_pure.mp hparse
    · next hvalue =>
      simpa [hvalue, Except.toOption] using ends_pure.mp hparse
    · exact absurd hparse ends_throw

theorem ends_loadOptions {found : Option Options}
    (h : Ends (loadOptions path) state world found state' world') :
    found = optionsIn? world.files path ∧ state' = state ∧ world.IsLeft world' := by
  obtain ⟨value, _, _, hread, hload⟩ := ends_bind.mp h
  obtain ⟨rfl, rfl, rfl⟩ := ends_readJson hread
  simp only [optionsIn?]
  split at hload
  · next hnone =>
    rw [hnone]
    exact World.isLeft_of_ends_told rfl hload
  · next members hmembers =>
    obtain ⟨rfl, rfl, rfl⟩ := ends_pure.mp hload
    exact ⟨by simp [hmembers], rfl, .refl _⟩
  · next value hother hvalue =>
    rw [hvalue]
    split
    · next members hmembers => exact absurd (Option.some.inj hmembers) (hother members)
    · exact World.isLeft_of_ends_told rfl hload

theorem ends_tableOf {dump : Json} {table : SymbolTable}
    (h : Ends (tableOf dump) state world table state' world') :
    Dump.table dump = .ok table ∧ state' = state ∧ world.IsLeft world' := by
  obtain ⟨_, _, _, hread, htold⟩ := ends_bind.mp h
  obtain ⟨htable, rfl, rfl⟩ := ends_ofExcept.mp hread
  obtain ⟨rfl, hleft⟩ := World.isLeft_of_ends_told rfl htold
  exact ⟨htable, hleft⟩

theorem fails_tableOf {dump : Json} {fault : Fault}
    (h : Fails (tableOf dump) state world fault state' world') :
    Dump.table dump = .error fault ∧ state' = state ∧ world' = world := by
  simpa only [tableOf, fails_bind, fails_ofExcept, fails_notify, fails_pure, and_false,
    exists_false, or_false] using h

theorem ends_loadTable {found : Option SymbolTable}
    (h : Ends (loadTable path) state world found state' world') :
    found = tableIn? world.files path ∧ state' = state ∧ world.IsLeft world' := by
  obtain ⟨value, _, _, hread, hload⟩ := ends_bind.mp h
  obtain ⟨rfl, rfl, rfl⟩ := ends_readJson hread
  simp only [tableIn?]
  split at hload
  · next hnone =>
    rw [hnone]
    exact World.isLeft_of_ends_told rfl hload
  next dump hdump =>
  rw [hdump]
  simp only [ends_bind, ends_tryCatch, ends_return, fails_bind, fails_return, and_false,
    exists_false, or_false] at hload
  obtain ⟨_, _, _, ⟨table, _, _, hends, rfl, rfl, rfl⟩ | ⟨fault, _, _, hfails, hcatch⟩, hend⟩ :=
    hload
  · obtain ⟨htable, rfl, hleft⟩ := ends_tableOf hends
    obtain ⟨rfl, rfl, rfl⟩ := ends_pure.mp hend
    exact ⟨by simp [htable, Except.toOption], rfl, hleft⟩
  · obtain ⟨htable, rfl, rfl⟩ := fails_tableOf hfails
    split at hcatch
    · obtain ⟨rfl, rfl, hleft⟩ := World.isLeft_of_ends_told rfl hcatch
      obtain ⟨rfl, rfl, rfl⟩ := ends_pure.mp hend
      exact ⟨by simp [htable, Except.toOption], rfl, hleft⟩
    · simp [ends_throw] at hcatch

-- ---------------------------------------------------------------------------
-- What is written
-- ---------------------------------------------------------------------------

theorem ends_starting {initial final : τ} {task : Task (StateM World) τ α} :
    Ends (starting initial task) state world (a, final) state' world' ↔
      state' = state ∧ Ends task initial world a final world' := by
  simp only [starting, ends_bind, ends_ofHost, ends_ofExcept, ends_pure, Prod.mk.injEq]
  constructor
  · rintro ⟨_, _, _, ⟨rfl, hrun⟩, _, _, _, ⟨hresult, rfl, rfl⟩, ⟨rfl, rfl⟩, rfl, rfl⟩
    exact ⟨rfl, hrun.trans (Prod.ext (Prod.ext hresult rfl) rfl)⟩
  · rintro ⟨rfl, hrun⟩
    exact ⟨(.ok a, final), _, _, ⟨rfl, hrun⟩, _, _, _, ⟨rfl, rfl, rfl⟩, ⟨rfl, rfl⟩, rfl, rfl⟩

theorem ends_reportUnresolved {functions : List FunctionDecl} {u : Unit}
    (h : Ends (reportUnresolved functions) state world u state' world') :
    state' = state ∧ world.IsLeft world' := by
  induction functions generalizing state world with
  | nil =>
    obtain ⟨-, rfl, rfl⟩ := ends_pure.mp h
    exact ⟨rfl, .refl _⟩
  | cons function rest ih =>
    obtain ⟨_, _, _, hnotify, hrest⟩ := ends_bind.mp h
    obtain ⟨rfl, hleft⟩ := World.isLeft_of_ends_notify rfl hnotify
    obtain ⟨rfl, hlater⟩ := ih hrest
    exact ⟨rfl, hleft.trans hlater⟩

theorem ends_writeManifest {outputs outputs' : Outputs} {path written : Path}
    (h : Ends (Outputs.writeManifest path) outputs world written outputs' world') :
    outputs' = outputs ∧ world'.warned = world.warned ∧
      FileTree.Puts [path] world.files world'.files := by
  simp only [Outputs.writeManifest, ends_bind, ends_get, ends_makeDirectories, ends_writeText,
    ends_notify, ends_pure] at h
  obtain ⟨_, _, _, ⟨rfl, rfl, rfl⟩, _, _, _, ⟨-, rfl, made, hmade, rfl⟩,
    _, _, _, ⟨-, -, rfl, files, hwrite, rfl⟩, _, _, _, ⟨rfl, rfl⟩, -, rfl, rfl⟩ := h
  exact ⟨rfl, by simp [World.warned, Notice.record?],
    FileTree.puts_of_place? (FileTree.place?_eq_some.mpr ⟨made, hmade, hwrite⟩)⟩

/-- The paths that a generation writes: those of its outputs, that of the report if there is
something to report, and that of the manifest if it is asked for. -/
def written (outputs : Outputs) (report : Path) (reported : List Record) (manifest : Label) :
    List Path :=
  outputs.created.map (·.path) ++ (if reported.isEmpty then [] else [report]) ++
    (manifest.given?.map Path.parse).toList

section

variable {table : SymbolTable} {config : Config} {directory : Path} {deferred : List FunctionDecl}
  {session : Session}

theorem puts_of_ends_round
    (h : Ends (Session.round table) (Session.fresh directory config) world deferred session
      world') :
    ∃ reported, world'.warned = world.warned ++ reported ∧
      FileTree.Puts (session.units.outputs.created.map (·.path) ++
        if reported.isEmpty then [] else [Path.parse config.reportPath]) world.files
        world'.files := by
  obtain ⟨files, -, hheld⟩ := Session.ends_first_round h
  obtain ⟨units, hunits, hreport, -⟩ := hheld.placed
  refine ⟨_, hheld.warned, FileTree.Puts.append (?_ : FileTree.Puts _ world.files units) ?_⟩
  · have hcreated : session.units.outputs.created.map (·.path) =
        ((Round.first table config).sources [] (Plan.accepted config files)).map fun source =>
          Plan.unitPath directory source.1 := by
      rw [hheld.created]
      exact List.map_map
    rw [hcreated]
    exact FileTree.puts_of_foldlM hunits
  · rw [List.isEmpty_map]
    exact FileTree.puts_of_placeReport? hreport

theorem ends_process {manifest : Label}
    (h : Ends (process table manifest) (Session.fresh directory config) world deferred session
      world') :
    ∃ reported, world'.warned = world.warned ++ reported ∧
      FileTree.Writes (written session.units.outputs (Path.parse config.reportPath) reported
        manifest) world.files world'.files := by
  obtain ⟨_, _, _, hround, hrest⟩ := ends_bind.mp h
  obtain ⟨reported, hreported, hputs⟩ := puts_of_ends_round hround
  obtain ⟨_, _, _, htold, hlast⟩ := ends_bind.mp hrest
  obtain ⟨rfl, hleft⟩ := ends_reportUnresolved htold
  refine ⟨reported, ?_⟩
  simp only [written]
  split at hlast
  · next path hpath =>
    simp only [Session.onUnits, UnitWriter.onOutputs, ends_bind, ends_within, ends_pure] at hlast
    obtain ⟨_, _, _, ⟨_, ⟨_, hwrite, rfl⟩, rfl⟩, -, rfl, rfl⟩ := hlast
    obtain ⟨rfl, hwarned, hmanifest⟩ := ends_writeManifest hwrite
    rw [hpath]
    exact ⟨hwarned.trans (hleft.warned.trans hreported),
      (hputs.append (hleft.files ▸ hmanifest)).writes⟩
  · next hnone =>
    obtain ⟨-, rfl, rfl⟩ := ends_pure.mp hlast
    rw [hnone, hleft.files]
    exact ⟨hleft.warned.trans hreported, by simpa using hputs.writes⟩

end

-- ---------------------------------------------------------------------------
-- Runs
-- ---------------------------------------------------------------------------

variable {settings : Settings} {options : Options} {session : Session} {reported : List Record}
  {status : Nat}

/-- A generation with the options: the session that it ended with, and what it reported. -/
structure Generated (settings : Settings) (options : Options) (session : Session)
    (reported : List Record) (world world' : World) : Prop where
  processed : ∃ symbols table directory deferred before after,
    settings.symbols.given? = some symbols ∧ tableIn? world.files symbols = some table ∧
    settings.outputDirectory.text? = some directory ∧ world.IsLeft before ∧ after.IsLeft world' ∧
    Ends (process table settings.manifest) (Session.make (Path.parse directory) options) before
      deferred session after
  warned : world'.warned = world.warned ++ reported
  writes : FileTree.Writes (written session.units.outputs
    (Path.parse (Config.ofOptions options).reportPath) reported settings.manifest) world.files
    world'.files

theorem Generated.of_isLeft {before : World} (hleft : world.IsLeft before)
    (h : Generated settings options session reported before world') :
    Generated settings options session reported world world' := by
  obtain ⟨⟨symbols, table, directory, deferred, start, after, hsymbols, htable, hdirectory, hstart,
    hafter, hprocess⟩, hwarned, hwrites⟩ := h
  exact ⟨⟨symbols, table, directory, deferred, start, after, hsymbols, hleft.files ▸ htable,
    hdirectory, hleft.trans hstart, hafter, hprocess⟩, hleft.warned ▸ hwarned,
    hleft.files ▸ hwrites⟩

theorem ends_generate (h : Ends (generate settings options) state world status state' world') :
    status = 1 ∧ world'.files = world.files ∨
      status = 0 ∧ ∃ session reported,
        Generated settings options session reported world world' := by
  unfold generate at h
  split at h
  · obtain ⟨rfl, -, hleft⟩ := World.isLeft_of_ends_told rfl h
    exact .inl ⟨rfl, hleft.files⟩
  next symbols hsymbols =>
  obtain ⟨_, _, loading, hloading, hload⟩ := ends_bind.mp h
  obtain ⟨rfl, hfirst⟩ := World.isLeft_of_ends_notify rfl hloading
  obtain ⟨found, _, _, htable, hrest⟩ := ends_bind.mp hload
  obtain ⟨hfound, rfl, hsecond⟩ := ends_loadTable htable
  have hbefore := hfirst.trans hsecond
  split at hrest
  · obtain ⟨rfl, -, hleft⟩ := World.isLeft_of_ends_told rfl hrest
    exact .inl ⟨rfl, (hbefore.trans hleft).files⟩
  next table =>
  obtain ⟨directory, _, before, hchosen, hstart⟩ := ends_bind.mp hrest
  obtain ⟨hdirectory, rfl, rfl⟩ := ends_ofOption.mp hchosen
  obtain ⟨⟨deferred, session⟩, _, after, hstarted, htold⟩ := ends_bind.mp hstart
  obtain ⟨rfl, hprocess⟩ := ends_starting.mp hstarted
  obtain ⟨rfl, -, hafter⟩ := World.isLeft_of_ends_told rfl htold
  obtain ⟨reported, hwarned, hwrites⟩ := ends_process hprocess
  refine .inr ⟨rfl, session, reported, ⟨symbols, table, directory, deferred, before, after,
    hsymbols, ?_, hdirectory, hbefore, hafter, hprocess⟩, ?_, ?_⟩
  · rw [← hfirst.files, hfound]
  · rw [hafter.warned, hwarned, hbefore.warned]
  · rw [hafter.files, ← hbefore.files]
    exact hwrites

/-- Where the report is that is to be fixed. -/
def reportOf (options : Options) : Path :=
  Path.parse ((options.lookup Options.reportPath).getD (.string ({} : Config).reportPath)).plain

/-- How a run ends, and what it has done to the files by then. -/
inductive Touches (settings : Settings) (world world' : World) : Nat → Prop
  | stopped : world'.files = world.files → Touches settings world world' 1
  | generated {options : Options} {session : Session} {reported : List Record} :
    settings.mode = .generate → optionsAt? settings world.files = some options →
    Generated settings options session reported world world' → Touches settings world world' 0
  | fixed {options : Options} : settings.mode = .fixVisibility →
    optionsAt? settings world.files = some options →
    VisibilityFix.Leaves (reportOf options) settings.root world.files world'.files →
    Touches settings world world' 0

theorem ends_runWith {before : World} (hleft : world.IsLeft before)
    (hoptions : optionsAt? settings world.files = override? settings options)
    (h : Ends (runWith settings options) state before status state' world') :
    Touches settings world world' status := by
  obtain ⟨chosen, _, _, hoverride, hmode⟩ := ends_bind.mp h
  obtain ⟨hchosen, rfl, rfl⟩ := ends_ofOption.mp hoverride
  split at hmode
  · next hgenerate =>
    rcases ends_generate hmode with ⟨rfl, hfiles⟩ | ⟨rfl, session, reported, hgenerated⟩
    · exact .stopped (hfiles.trans hleft.files)
    · exact .generated hgenerate (hoptions.trans hchosen) (hgenerated.of_isLeft hleft)
  · next hfix =>
    obtain ⟨_, _, _, hrun, hend⟩ := ends_bind.mp hmode
    obtain ⟨rfl, rfl, rfl⟩ := ends_pure.mp hend
    exact .fixed hfix (hoptions.trans hchosen) (hleft.files ▸ (VisibilityFix.ends_run hrun).2)

/-- A run that comes to its end touches what it has to, and nothing else. -/
theorem run_touches (h : Ends (run settings) state world status state' world') :
    Touches settings world world' status := by
  unfold run at h
  split at h
  · next hnone => exact ends_runWith (.refl _) (by simp [optionsAt?, hnone]) h
  next path hpath =>
  obtain ⟨found, _, _, hload, hrest⟩ := ends_bind.mp h
  obtain ⟨hfound, rfl, hleft⟩ := ends_loadOptions hload
  split at hrest
  · obtain ⟨rfl, rfl, rfl⟩ := ends_pure.mp hrest
    exact .stopped hleft.files
  · exact ends_runWith hleft (by simp [optionsAt?, hpath, ← hfound]) hrest

/-- A world of files with these paths and texts. -/
def holding (files : List (Text × Text)) : World :=
  .ofFiles { FileTree.empty with
    entries := files.map fun (path, text) =>
      ((Path.parse path).place FileTree.home, .file (text.utf8?.getD .empty)) }

/-- A run that fixes a file beneath another root and one whose path starts at the root, but not a
third one, and one that lists no units in a manifest. -/
theorem dark_card_touched :
    let reported := holding [("report.txt", "Cards.kt|Dark\n/Other.kt|Dark"),
      ("/home/Cards.kt", "private fun Dark() = Unit"), ("/Other.kt", "private fun Dark() = Unit"),
      ("Cards.kt", "private fun Dark() = Unit")]
    let dumped := holding [("dump.json", "\x7b\x7d")]
    let textAt (world : World) (path : Text) := world.files.read? (Path.parse path)
    let fixedText := Text.utf8? "internal fun Dark() = Unit"
    ∃ fixing generating fixed generated,
      Settings.parse ["--mode", "fix-visibility", "--report", "report.txt", "--root", "/home"] =
        .run fixing ∧
      Settings.parse ["-s", "dump.json", "--manifest", "/units.json"] = .run generating ∧
      Ends (run fixing) () reported 0 () fixed ∧ Touches fixing reported fixed 0 ∧
      textAt fixed "/home/Cards.kt" = fixedText ∧ textAt fixed "/Other.kt" = fixedText ∧
      textAt fixed "Cards.kt" = textAt reported "Cards.kt" ∧
      Ends (run generating) () dumped 0 () generated ∧ Touches generating dumped generated 0 ∧
      textAt generated "/units.json" ≠ none := by
  intro reported dumped textAt fixedText
  let fixing : Settings :=
    { mode := .fixVisibility, report := .string "report.txt", root := .string "/home" }
  let generating : Settings := { symbols := .string "dump.json", manifest := .string "/units.json" }
  obtain ⟨status, ⟨⟩, fixed, hfixed, hchecked⟩ := exists_ends_of (run fixing) () reported
    (fun status _ fixed => status == 0 && decide (textAt fixed "/home/Cards.kt" = fixedText ∧
      textAt fixed "/Other.kt" = fixedText ∧
      textAt fixed "Cards.kt" = textAt reported "Cards.kt")) (by decide +kernel)
  simp only [Bool.and_eq_true, beq_iff_eq, decide_eq_true_eq] at hchecked
  obtain ⟨rfl, hhome, hother, hkept⟩ := hchecked
  obtain ⟨status, ⟨⟩, generated, hgenerated, hlisted⟩ := exists_ends_of (run generating) () dumped
    (fun status _ generated => status == 0 && (textAt generated "/units.json").isSome)
    (by decide +kernel)
  simp only [Bool.and_eq_true, beq_iff_eq, Option.isSome_iff_ne_none] at hlisted
  obtain ⟨rfl, hlisted⟩ := hlisted
  exact ⟨fixing, generating, fixed, generated, rfl, rfl, hfixed, run_touches hfixed, hhome, hother,
    hkept, hgenerated, run_touches hgenerated, hlisted⟩

end Command

end PreviewShots
