import PreviewShots.Proofs.Marker.Rounds
import PreviewShots.Proofs.Scan

/-!
# A first round by the plan

A round of a fresh session that ends leaves behind what is planned for its files, all of it
and nothing else (`round_planned`).
-/

open PreviewShots.Task

namespace PreviewShots

variable {table : SymbolTable} {config : Config} {directory : Path} {world world' : World}

namespace Session

variable {session session' : Session}

-- ---------------------------------------------------------------------------
-- Files
-- ---------------------------------------------------------------------------

/-- A session at work on a first round with the table. -/
structure Ready (table : SymbolTable) (config : Config) (directory : Path) (session : Session) :
    Prop where
  config_eq : session.config = config
  suffix : session.units.suffix = config.suffix
  directory_eq : session.units.outputs.directory = directory
  knows : Marker.Knows table config.preview session.classifier.registry

theorem Ready.isServed (hr : Ready table config directory session) :
    (Round.first table config).IsServed session :=
  ⟨hr.config_eq, hr.suffix, hr.knows⟩

/-- What a scan of accepted files comes to in a first round. -/
structure Scanned (table : SymbolTable) (config : Config) (directory : Path)
    (files : List SourceFile) (before after : Session) (world world' : World) : Prop where
  report : after.report =
    ⟨before.report.path, before.report.pending ++ Plan.violations table config files⟩
  written : after.units.written = before.units.written ++
    (Plan.sources table config before.units.written files).map (·.1.qualifiedName)
  created : after.units.outputs.created = before.units.outputs.created ++
    (Plan.sources table config before.units.written files).map (Plan.output directory)
  warned : world'.warned = world.warned ++ (Plan.violations table config files).map (·.record)
  placed : (Plan.sources table config before.units.written files).foldlM
    (Plan.placeUnit? table config directory) world.files = some world'.files
  tested : ∀ eligible ∈ Plan.eligible table config files,
    (Synthesis.fragment? table config eligible).isSome

theorem ends_scanFiles {files : List SourceFile} {found : Nat × List FunctionDecl}
    (hr : Ready table config directory session)
    (h : Ends (scanFiles table files) session world found session' world') :
    found.2 = Plan.deferred table config (Plan.accepted config files) ∧
      Scanned table config directory (Plan.accepted config files) session session' world
        world' := by
  obtain ⟨hdeferred, hscanned⟩ := Round.ends_scanFiles hr.isServed h
  have hsources := Round.first_sources table config session.units.written
    (Plan.accepted config files)
  refine ⟨hdeferred, hscanned.report, ?_, ?_, hscanned.warned, ?_, hscanned.tested⟩
  · rw [← hsources]
    exact hscanned.written
  · rw [← hsources, ← hr.directory_eq]
    exact hscanned.created
  · rw [← hsources, ← hr.directory_eq]
    exact hscanned.placed

-- ---------------------------------------------------------------------------
-- Rounds
-- ---------------------------------------------------------------------------

/-- A session that has seen no round. -/
def fresh (directory : Path) (config : Config) : Session where
  config := config
  classifier := .ofBase config.preview
  units := .make directory config.suffix
  report := .ofPath config.reportPath

example (directory : Path) (options : Options) :
    make directory options = fresh directory (.ofOptions options) := rfl

/-- The start of a round seeds its markers and leaves all else alone. -/
theorem ends_seed {u : Unit} (hw : session.classifier.registry.WellFormed)
    (h : Ends (start table) session world u session' world') :
    world' = world ∧ ∃ classifier,
      Marker.Seeded table session.classifier.registry classifier.registry ∧
      ((Marker.Stage.mk [] session.classifier world).next (.begins table)).registry =
        classifier.registry ∧
      session' = { session with classifier } := by
  simp only [start, onClassifier, ends_bind, ends_modify, ends_within, ends_pure] at h
  obtain ⟨_, _, world, ⟨rfl, rfl⟩, count, _, _, ⟨classifier, hseed, rfl⟩, -, rfl, rfl⟩ := h
  obtain ⟨result, after, hrun, hok, -⟩ := Marker.seed_seeded table
    { session.classifier with stubs := [] } world hw
  have hnext : ((Marker.Stage.mk [] session.classifier world).next (.begins table)).registry =
      after.registry := by
    simp [Marker.Stage.next, Marker.Stage.leave, Marker.Stage.registry, Marker.begin,
      Task.run_bind, Task.run_modify, hrun]
  rw [Ends, hrun] at hseed
  obtain ⟨⟨rfl, rfl⟩, rfl⟩ := by simpa using hseed
  exact ⟨rfl, after, hok count rfl, hnext, rfl⟩

theorem ends_start {u : Unit}
    (h : Ends (start table) (fresh directory config) world u session' world') :
    world' = world ∧ ∃ classifier, Marker.Knows table config.preview classifier.registry ∧
      session' = { fresh directory config with classifier } := by
  obtain ⟨rfl, classifier, hseeded, -, rfl⟩ := ends_seed (.ofBase config.preview) h
  exact ⟨rfl, classifier, Marker.knows_of_seeded hseeded, rfl⟩

/-- What one round of a fresh session on the files leaves behind. The sources are the
units that are written and the files they are from, and `units` is the tree that holds
them and not yet the report. -/
structure Planned (table : SymbolTable) (config : Config) (directory : Path)
    (files : List SourceFile) (sources : List (UnitKey × SourceFile)) (world : World)
    (deferred : List FunctionDecl) (after : Session) (units : FileTree) (world' : World) :
    Prop where
  onePerName : Plan.OnePerName table config files sources
  deferred_eq : deferred = Plan.deferred table config files
  warned : world'.warned = world.warned ++ (Plan.violations table config files).map (·.record)
  pending : after.report.pending = []
  tested : ∀ eligible ∈ Plan.eligible table config files,
    (Synthesis.fragment? table config eligible).isSome
  written : after.units.written = sources.map (·.1.qualifiedName)
  created : after.units.outputs.created = sources.map (Plan.output directory)
  placed : sources.foldlM (Plan.placeUnit? table config directory) world.files = some units
  reported : Plan.placeReport? (Path.parse config.reportPath) (Plan.violations table config files)
    units = some world'.files
  readable : Plan.violations table config files ≠ [] →
    world'.files.read? (Path.parse config.reportPath) =
      some ((Plan.reportText units (Path.parse config.reportPath)
        (Plan.violations table config files)).utf8?.getD .empty)

/-- A round of a fresh session that ends without a fault has done what is planned for the
accepted ones of its new files. -/
theorem round_planned (table : SymbolTable) (config : Config) (directory : Path) (world : World)
    {deferred : List FunctionDecl} {after : Session} {world' : World}
    (h : Ends (round table) (fresh directory config) world deferred after world') :
    ∃ files, table.newFiles? = some files ∧ ∃ sources units,
      Planned table config directory (Plan.accepted config files) sources world deferred after
        units world' := by
  simp only [round, onReport, ends_bind, ends_ofOption, ends_within, ends_notify, ends_pure,
    ends_get] at h
  obtain ⟨_, _, _, hstart, files, _, _, ⟨hfiles, rfl, rfl⟩, found, _, _, hscan,
    _, _, _, ⟨report, hflush, rfl⟩, _, _, _, ⟨rfl, rfl, rfl⟩, _, _, _, ⟨rfl, rfl⟩,
    rfl, rfl, rfl⟩ := h
  obtain ⟨rfl, classifier, hknows, rfl⟩ := ends_start hstart
  have hready : Ready table config directory { fresh directory config with classifier } :=
    ⟨rfl, rfl, rfl, hknows⟩
  obtain ⟨hdeferred, hscanned⟩ := ends_scanFiles hready hscan
  obtain ⟨rfl, hwarned, hplaced⟩ := ReportWriter.ends_flush hflush
  rw [hscanned.report] at hplaced
  refine ⟨files, hfiles, Plan.sources table config [] (Plan.accepted config files),
    _, Plan.onePerName_sources _, hdeferred, ?_, rfl, hscanned.tested, ?_, ?_, hscanned.placed,
    hplaced, Plan.read?_placeReport? hplaced⟩
  · rw [← hscanned.warned, ← hwarned]
    simp [World.warned, Notice.record?]
  · simpa [fresh, UnitWriter.make] using hscanned.written
  · simpa [fresh, UnitWriter.make, Outputs.ofDirectory] using hscanned.created

/-- A function with the base marker, in a file of its own package. -/
def previewed (name : Text) (visibility : Visibility) (returns : Option TypeRef) : Declaration :=
  .function ⟨.string name, .string "app", visibility, [.ofName "Preview"], [], returns, .kotlin,
    true, .string "Cards.kt"⟩

/-- A function of each kind: eligible, private and deferred. -/
def cards : SymbolTable :=
  ⟨[⟨.string "Cards.kt", .string "app", .kotlin, [previewed "Card" .isPublic none,
    previewed "Hidden" .isPrivate none, previewed "Later" .isPublic (some .unknown)]⟩], [], none⟩

theorem cards_planned : ∃ deferred after world',
    Ends (round cards) (fresh (Path.parse "out") { preview := .string "Preview" })
      (.ofFiles .empty) deferred after world' ∧
    ∃ files, cards.newFiles? = some files ∧ ∃ sources units,
      Planned cards { preview := .string "Preview" } (Path.parse "out")
        (Plan.accepted { preview := .string "Preview" } files) sources (.ofFiles .empty) deferred
        after units world' := by
  obtain ⟨deferred, after, world', h⟩ := exists_ends (round cards)
    (fresh (Path.parse "out") { preview := .string "Preview" }) (.ofFiles .empty)
    (by decide +kernel)
  exact ⟨deferred, after, world', h, round_planned _ _ _ _ h⟩

end Session

end PreviewShots
