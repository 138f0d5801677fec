import PreviewShots.Proofs.Halt
import PreviewShots.Proofs.Obstruction
import PreviewShots.Proofs.Repeat

/-!
# A round that is held again after it failed

A round that fails since an entry obstructs a unit or the report has come some way: it has
verdicts, units and violations. With the obstructing entries removed it can be held again.
What it did already it passes over, and where it had stopped it goes on, so that in the end
there is what one uninterrupted round would have come to (`round_retried`).
-/

open PreviewShots.Task

namespace PreviewShots

variable {world world' : World} {fault : Fault}

-- ---------------------------------------------------------------------------
-- Units
-- ---------------------------------------------------------------------------

namespace UnitWriter

variable {alike : FileTree → FileTree → Prop} {writer writer' : UnitWriter}
  {written : Option UnitKey} {source : Label} {fragments : List Fragment}

/-- A unit is written again where its file can be put in place again. -/
theorem ends_write_again (alike : FileTree → FileTree → Prop) (later : World)
    (h : Ends (write source fragments) writer world written writer' world')
    (hkept : written = none → alike world.files later.files)
    (hplace : ∀ key ∈ written, ∀ bytes tree,
      world.files.place? (Plan.unitPath writer.outputs.directory key) bytes = some tree →
      ∃ other, later.files.place? (Plan.unitPath writer.outputs.directory key) bytes = some other ∧
        alike tree other) :
    ∃ later', Ends (write source fragments) writer later written writer' later' ∧
      alike world'.files later'.files := by
  cases fragments with
  | nil =>
    obtain ⟨rfl, rfl, rfl⟩ := ends_pure.mp h
    exact ⟨later, ends_pure.mpr ⟨rfl, rfl, rfl⟩, hkept rfl⟩
  | cons first rest =>
    obtain ⟨file, hfile,
      ⟨htaken, rfl, rfl, rfl⟩ | ⟨package, hadmits, rfl, rfl, tree, htree, rfl⟩⟩ :=
        ends_write_cons_iff.mp h
    · exact ⟨later, ends_write_cons_iff.mpr ⟨file, hfile, .inl ⟨htaken, rfl, rfl, rfl⟩⟩, hkept rfl⟩
    · rw [pathFor_eq hadmits.package_eq] at htree
      obtain ⟨other, hother, halike⟩ := hplace _ rfl _ _ htree
      rw [← pathFor_eq hadmits.package_eq] at hother
      exact ⟨_, ends_write_cons_iff.mpr
        ⟨file, hfile, .inr ⟨package, hadmits, rfl, rfl, other, hother, rfl⟩⟩, halike⟩

/-- The writers are one, and the trees are alike. -/
def Beside (alike : FileTree → FileTree → Prop) (first : UnitWriter) (tree : FileTree)
    (second : UnitWriter) (tree' : FileTree) : Prop :=
  second = first ∧ alike tree tree'

theorem writesAgain_beside
    (hplace : ∀ {tree tree' other : FileTree} {path bytes}, alike tree other →
      tree.place? path bytes = some tree' →
      ∃ other', other.place? path bytes = some other' ∧ alike tree' other') :
    Session.WritesAgain (fun _ => True) (Beside alike) := by
  intro source fragments world first first' world' written h _
  refine ⟨trivial, ?_⟩
  rintro second later ⟨rfl, halike⟩
  obtain ⟨later', hends, halike'⟩ := ends_write_again alike later h (fun _ => halike)
    fun _ _ _ _ htree => hplace halike htree
  exact ⟨written, _, later', hends, rfl, halike'⟩

end UnitWriter

-- ---------------------------------------------------------------------------
-- Reports
-- ---------------------------------------------------------------------------

/-- Items that are there before count once, in the place where they stood first. -/
theorem eraseDups_append_again {α : Type} [BEq α] [LawfulBEq α] (items : List α) {part all : List α}
    (h : part <+: all) : (items ++ (part ++ all)).eraseDups = (items ++ all).eraseDups := by
  obtain ⟨rest, rfl⟩ := h
  rw [← List.append_assoc, eraseDups_append_append _ (List.subset_append_right items part),
    List.append_assoc]

namespace ReportWriter

variable {writer writer' : ReportWriter}

/-- The report comes to the same with some of the violations recorded a second time. -/
theorem IsFlushable.retried {again : ReportWriter} {tree tree' other : FileTree}
    (h : writer.IsFlushable tree tree') (hpath : again.path = writer.path)
    (hpending : ∃ part, part <+: writer.pending ∧ again.pending = part ++ writer.pending)
    (hserves : FileTree.Serves writer.path tree other) :
    ∃ other', again.IsFlushable other other' ∧ FileTree.Same tree' other' := by
  obtain ⟨part, hpart, hagain⟩ := hpending
  have htext : Plan.reportText other again.path again.pending =
      Plan.reportText tree writer.path writer.pending := by
    have hrecords : Plan.recordsAt other writer.path = Plan.recordsAt tree writer.path := by
      simp only [Plan.recordsAt, hserves.read]
    simp only [Plan.reportText, VisibilityReport.merge, hpath, hrecords, hagain, List.map_append]
    rw [eraseDups_append_again _ (hpart.map _)]
  obtain ⟨other', hother, hsame⟩ := hserves.paved.place? h.placed
  refine ⟨other', ⟨hpath ▸ h.path, hpath ▸ h.parent, ?_, htext ▸ h.encodable, ?_⟩, hsame⟩
  · rw [hpath, FileTree.IsReadable, hserves.there, hserves.read]
    exact h.readable
  · rw [htext, hpath]
    exact hother

theorem ends_flush_again {again : ReportWriter} {written : Option Path} (later : World)
    (h : Ends flush writer world written writer' world') (hpath : again.path = writer.path)
    (hpending : ∃ part, part <+: writer.pending ∧ again.pending = part ++ writer.pending)
    (hserves : FileTree.Serves writer.path world.files later.files)
    (hsame : writer.pending = [] → FileTree.Same world.files later.files) :
    ∃ later', Ends flush again later written writer' later' ∧
      FileTree.Same world'.files later'.files := by
  by_cases hnil : writer.pending = []
  · obtain ⟨rfl, rfl, rfl⟩ := (ends_flush_of_nil hnil).mp h
    obtain ⟨part, hpart, hagain⟩ := hpending
    rw [hnil] at hpart hagain
    have hnone : again.pending = [] := by simpa [List.prefix_nil.mp hpart] using hagain
    have heq : writer' = again := by
      cases again
      cases writer'
      simp_all
    exact ⟨later, (ends_flush_of_nil hnone).mpr ⟨rfl, heq, rfl⟩, hsame hnil⟩
  · obtain ⟨rfl, rfl, files, hflushable, rfl⟩ := (ends_flush_of_ne_nil hnil).mp h
    obtain ⟨other, hagain, hother⟩ := hflushable.retried hpath hpending hserves
    obtain ⟨part, -, hpart⟩ := hpending
    have hsome : again.pending ≠ [] := by simp [hpart, hnil]
    refine ⟨_, (ends_flush_of_ne_nil hsome).mpr ⟨?_, ?_, other, hagain, rfl⟩, hother⟩
    · rw [hpath]
    · rw [hpath]

end ReportWriter

-- ---------------------------------------------------------------------------
-- Scans
-- ---------------------------------------------------------------------------

namespace Session

variable {table : SymbolTable} {config : Config} {directory : Path} {removed : List Location}
  {started halted scanned : Session} {halfway later done : World}
  {files : List SourceFile} {found : Nat × List FunctionDecl}

/-- What a scan held again comes to, beside one that was not interrupted. -/
structure Resumed (whole : Session) (done : FileTree) (again : Session) (left : FileTree) :
    Prop where
  units_eq : again.units = whole.units
  path_eq : again.report.path = whole.report.path
  pending : ∃ part, part <+: whole.report.pending ∧
    again.report.pending = part ++ whole.report.pending
  serves : FileTree.Serves whole.report.path done left
  same : whole.report.pending = [] → FileTree.Same done left

section

variable {alike : FileTree → FileTree → Prop} (table : SymbolTable)

/-- The same scan on files that are alike for whatever is put in place. -/
theorem repeats_beside (pending pending' : List Violation) (files : List SourceFile)
    (hplace : ∀ {tree tree' other : FileTree} {path bytes}, alike tree other →
      tree.place? path bytes = some tree' →
      ∃ other', other.place? path bytes = some other' ∧ alike tree' other') :
    Repeats (IsWithin (fun _ => True) (fun _ => True))
      (Alike MarkerRegistry.Same (UnitWriter.Beside alike) pending pending')
      (scanFiles (m := StateM World) table files) :=
  repeats_scanFiles (Marker.replays_same table) (UnitWriter.writesAgain_beside hplace)

theorem repeats_approach_beside (pending pending' : List Violation) (earlier : List SourceFile)
    (file : SourceFile)
    (hplace : ∀ {tree tree' other : FileTree} {path bytes}, alike tree other →
      tree.place? path bytes = some tree' →
      ∃ other', other.place? path bytes = some other' ∧ alike tree' other') :
    Repeats (IsWithin (fun _ => True) (fun _ => True))
      (Alike MarkerRegistry.Same (UnitWriter.Beside alike) pending pending')
      (approach (m := StateM World) table earlier file) :=
  repeats_approach (Marker.replays_same table) (UnitWriter.writesAgain_beside hplace)

/-- What was scanned on the way to a unit is passed over. -/
theorem repeats_approach_known (memory : MarkerRegistry) (taken : UnitWriter) (held : FileTree)
    (pending pending' : List Violation) (earlier : List SourceFile) (file : SourceFile) :
    Repeats (IsWithin (·.IsWithin memory) (·.written ⊆ taken.written))
      (Alike (fun _ second => second = memory) (UnitWriter.HasTaken taken held) pending pending')
      (approach (m := StateM World) table earlier file) :=
  repeats_approach (Marker.replays_known table memory) (UnitWriter.writesAgain_taken taken held)

end

/-- The two scans start alike, but for what is removed. -/
theorem beside_started (hnone : started.report.pending = [])
    (hlater : later.files = world.files.without removed) :
    Alike MarkerRegistry.Same (UnitWriter.Beside (FileTree.Lacks (FileTree.IsBeneath removed)))
      [] [] started world.files started later.files :=
  ⟨rfl, fun _ => rfl, rfl, ⟨[], by simp [hnone], by simp [hnone]⟩, rfl,
    hlater ▸ FileTree.lacks_without _ _⟩

/-- As far as both scans have come, nothing was put in place beneath what is removed. -/
def KeepsClear (table : SymbolTable) (removed : List Location) (started : Session)
    (world later : World) (files : List SourceFile) : Prop :=
  ∀ {earlier rest counted middle between counted' middle' between'}, files = earlier ++ rest →
    Ends (scanFiles table earlier) started world counted middle between →
    Ends (scanFiles table earlier) started later counted' middle' between' →
    ∀ location, FileTree.IsBeneath removed location → between'.files.at? location = none

theorem KeepsClear.approach {earlier rest : List SourceFile} {file : SourceFile}
    {result result' : (Nat × List FunctionDecl) × List FunctionDecl × List Fragment}
    {middle middle' : Session} {between between' : World}
    (h : KeepsClear table removed started world later (earlier ++ rest))
    (hends : Ends (approach table earlier file) started world result middle between)
    (hends' : Ends (approach table earlier file) started later result' middle' between') :
    ∀ location, FileTree.IsBeneath removed location → between'.files.at? location = none := by
  obtain ⟨_, _, _, hscan, _⟩ := ends_bind.mp hends
  obtain ⟨_, _, _, hscan', hrest⟩ := ends_bind.mp hends'
  obtain ⟨_, _, _, hprepare, hpure⟩ := ends_bind.mp hrest
  obtain ⟨-, -, rfl⟩ := ends_pure.mp hpure
  rw [(eq_of_ends_prepare hprepare).2]
  exact h rfl hscan hscan'

/-- A scan that stopped at a unit is resumed: the files before are passed over, the unit is
written now, and the files behind it are scanned for the first time. -/
theorem resume_of_fails_scan (known : Classifier) (restart : World)
    (hnone : started.report.pending = [])
    (hlater : later.files = world.files.without removed)
    (hhalted : Fails (scanFiles table files) started world .fileSystem halted halfway)
    (hscan : Ends (scanFiles table files) started later found scanned done)
    (hclear : KeepsClear table removed started world later files)
    (hknown : known.registry = halted.classifier.registry)
    (hrestart : restart.files = halfway.files.without removed) :
    ∃ resumed final,
      Ends (scanFiles table files) { halted with classifier := known } restart found resumed final ∧
        Resumed scanned done.files resumed final.files := by
  have hscans := (stays_scanFiles.fails hhalted).1
  obtain ⟨earlier, file, rest, counted, deferred, fragments, stopped, tried, units, rfl, haccepts,
    hstopped, hfails, rfl⟩ := fails_scanFiles (by simp) hhalted
  obtain ⟨counted', deferred', fragments', ready, between, written, units', after, counted'',
    hready, hwrite, hrest, rfl⟩ := (ends_scanFiles_at haccepts).mp hscan
  -- up to the unit the two are side by side
  obtain ⟨hsame, halike⟩ := (repeats_approach_beside table [] [] earlier file
    FileTree.Lacks.place?).alike hstopped hready ⟨trivial, trivial⟩
      (beside_started hnone hlater)
  obtain ⟨rfl, rfl, rfl⟩ : counted' = counted ∧ deferred' = deferred ∧ fragments' = fragments := by
    simpa using hsame
  obtain ⟨hunits, hlacks⟩ := halike.units
  obtain ⟨rfl, key, rfl, htried⟩ :=
    UnitWriter.key_of_fails_write hfails (hunits ▸ hwrite) hlacks.medium_eq
  have hpaved := FileTree.paved_of_tried htried hlacks (hclear.approach hstopped hready)
  -- held again, the scan passes over what was done before it
  obtain ⟨-, hpass⟩ := repeats_approach_known table stopped.classifier.registry stopped.units
    restart.files started.report.pending stopped.report.pending earlier file _ _ _ _ _ hready
      ⟨halike.registries.symm.isWithin, by simp [hunits]⟩
  obtain ⟨again, between', hagain, hpassed⟩ := hpass { stopped with classifier := known } restart
    (hscans.taken hknown hscans.path_eq _ _)
  -- the unit is written, and the two are side by side from there on
  have hpaved' : FileTree.Paved (Plan.unitPath ready.units.outputs.directory key) between.files
      between'.files := by
    rw [hunits, hpassed.units.tree_eq, hrestart]
    exact hpaved
  obtain ⟨after', hwrite', hbeside⟩ := UnitWriter.ends_write_again FileTree.Same between' hwrite
    nofun fun key' hk _ _ htree => by
      obtain rfl : key = key' := by simpa using hk
      exact hpaved'.place? htree
  rw [hunits, ← hpassed.units.units_eq] at hwrite'
  obtain ⟨-, hfollow⟩ := repeats_beside table ready.report.pending again.report.pending rest
    FileTree.Same.place? _ _ _ _ _ hrest ⟨trivial, trivial⟩
  obtain ⟨resumed, final, hrest', hdone⟩ := hfollow { again with units := units' } after'
    ⟨hpassed.config_eq, hpassed.registries ▸ halike.registries.symm, hpassed.path_eq,
      ⟨[], by simp, by simp⟩, rfl, hbeside⟩
  have haccepts' : Selection.accepts? ({ stopped with classifier := known } : Session).config file =
      some true := hscans.config_eq ▸ haccepts
  refine ⟨resumed, final, (ends_scanFiles_at haccepts').mpr ⟨counted', deferred', fragments', again,
    between', some key, units', after', counted'', hagain, hwrite', hrest', rfl⟩, hdone.units.1,
    hdone.path_eq, ?_, hdone.units.2.serves _, fun _ => hdone.units.2⟩
  obtain ⟨part, hpart, hpart'⟩ := halike.pending
  obtain ⟨_, hfirst, hsecond⟩ := hpassed.pending
  obtain ⟨more, hmore, hmore'⟩ := hdone.pending
  exact ⟨ready.report.pending, ⟨more, hmore.symm⟩, by simp_all⟩

/-- The report that was tried is clear of what is removed. -/
def SparesReport (removed : List Location) (stopped : Session) (tree : FileTree) : Prop :=
  tree.IsOpen stopped.report.path → ∀ location,
    location ∈ stopped.report.path.stops tree.working ∨
      location = stopped.report.path.place tree.working →
    ¬ FileTree.IsBeneath removed location

/-- A scan that came to its end before the report could not be written is passed over. -/
theorem resume_of_fails_flush {stopped : Session} {counted : Nat × List FunctionDecl}
    {between final : World} {report flushed : ReportWriter} {written : Option Path}
    (known : Classifier) (restart : World) (hnone : started.report.pending = [])
    (hlater : later.files = world.files.without removed)
    (hcounted : Ends (scanFiles table files) started world counted stopped between)
    (hhalted : Fails ReportWriter.flush stopped.report between .fileSystem report halfway)
    (hscan : Ends (scanFiles table files) started later found scanned done)
    (hflush : Ends ReportWriter.flush scanned.report done written flushed final)
    (hclear : KeepsClear table removed started world later files)
    (hspares : stopped.report.pending ≠ [] → SparesReport removed stopped between.files)
    (hknown : known.registry = stopped.classifier.registry)
    (hrestart : restart.files = halfway.files.without removed) :
    ∃ resumed final', Ends (scanFiles table files) { stopped with classifier := known, report }
        restart found resumed final' ∧ Resumed scanned done.files resumed final'.files := by
  have hscans := stays_scanFiles.ends hcounted
  obtain ⟨rfl, halike⟩ := (repeats_beside table [] [] files FileTree.Lacks.place?).alike hcounted
    hscan ⟨trivial, trivial⟩ (beside_started hnone hlater)
  obtain ⟨rfl, hne, hcause⟩ := ReportWriter.fails_flush hhalted
  obtain ⟨part, hpart, hpart'⟩ := halike.pending
  have hpending : scanned.report.pending = stopped.report.pending := hpart'.trans hpart.symm
  have hlacks := halike.units.2
  obtain ⟨-, -, files', hflushable, -⟩ :=
    (ReportWriter.ends_flush_of_ne_nil (hpending ▸ hne)).mp hflush
  have hput := FileTree.isPut_of_place? hflushable.placed
  have hfit := hput.fit
  have hopen := hput.isOpen
  have htaken := hput.taken
  rw [halike.path_eq] at hfit hopen htaken
  rw [hlacks.medium_eq] at hfit
  obtain ⟨htried, hbarred⟩ : between.files.Tried stopped.report.path halfway.files ∧
      ¬ between.files.IsOpen stopped.report.path := by
    rcases hcause with ⟨htried, hbarred⟩ | ⟨hopen', hnot⟩
    · exact ⟨htried, fun h => hbarred ⟨hfit, h⟩⟩
    -- a report that is not taken is the one that was taken without the obstructing entries
    · refine absurd (htaken.congr hlacks.medium_eq.symm) fun htaken' => hnot ?_
      have hread : done.files.read? stopped.report.path =
          between.files.read? stopped.report.path := FileTree.read?_congr hfit hlacks.medium_eq
        fun location hm => (hlacks.entries location).resolve_right fun hgone =>
          hspares hne hopen' location hm hgone.1
      have htext : Plan.reportText done.files stopped.report.path scanned.report.pending =
          Plan.reportText between.files stopped.report.path stopped.report.pending := by
        simp only [Plan.reportText, Plan.recordsAt, hread, hpending]
      rwa [htext] at htaken'
  -- the report is written where nothing was in the way, so nothing of it was there
  have hserves := FileTree.serves_of_tried hfit htried hlacks
    (hclear (List.append_nil _).symm hcounted hscan) hbarred hopen
  rw [← hrestart, ← halike.path_eq] at hserves
  obtain ⟨-, hpass⟩ := repeats_known table stopped.classifier.registry stopped.units restart.files
    started.report.pending stopped.report.pending files _ _ _ _ _ hscan
      ⟨halike.registries.symm.isWithin, by simp [halike.units.1]⟩
  obtain ⟨resumed, final', hends, hpassed⟩ := hpass { stopped with classifier := known } restart
    (hscans.taken hknown hscans.path_eq _ _)
  obtain ⟨again, hfirst, hsecond⟩ := hpassed.pending
  refine ⟨resumed, final', hends, hpassed.units.units_eq.trans halike.units.1.symm,
    hpassed.path_eq, ⟨scanned.report.pending, List.prefix_rfl, ?_⟩, ?_, fun h => ?_⟩
  · rw [hsecond, hpending, ← hpending, hfirst, hnone, List.nil_append]
  · rw [hpassed.units.tree_eq]
    exact hserves
  · exact absurd (hpending.symm.trans h) hne

/-- With the report written a round that was resumed has come to the same files. -/
theorem Resumed.flush {again : Session} {left final : World} {flushed : ReportWriter}
    {written : Option Path} (h : Resumed scanned done.files again left.files)
    (hflush : Ends ReportWriter.flush scanned.report done written flushed final) :
    ∃ final', Ends ReportWriter.flush again.report left written flushed final' ∧
      FileTree.Same final.files final'.files :=
  ReportWriter.ends_flush_again left hflush h.path_eq h.pending h.serves h.same

end Session

-- ---------------------------------------------------------------------------
-- Rounds
-- ---------------------------------------------------------------------------

/-- The paths that a first round writes to: those of its units, and of the report if there
are violations. -/
noncomputable def Plan.paths (table : SymbolTable) (config : Config) (directory : Path)
    (files : List SourceFile) : List Path :=
  (sources table config [] files).map (fun source => unitPath directory source.1) ++
    if (violations table config files).isEmpty then [] else [Path.parse config.reportPath]

namespace Session

variable {table : SymbolTable} {config : Config} {directory : Path} {removed : List Location}
  {session session' started : Session} {later : World} {files : List SourceFile}

/-- A scan fills the paths of its units. -/
theorem Ready.fills (hr : Ready table config directory session)
    {found : Nat × List FunctionDecl}
    (h : Ends (scanFiles table files) session world found session' world') :
    FileTree.Fills ((Plan.sources table config session.units.written
      (Plan.accepted config files)).map fun source => Plan.unitPath directory source.1)
        world.files world'.files :=
  FileTree.fills_of_foldlM (ends_scanFiles hr h).2.placed

theorem Ready.sparesReport (hr : Ready table config directory started)
    (hreport : started.report = ⟨Path.parse config.reportPath, []⟩) {whole : FileTree}
    {counted : Nat × List FunctionDecl} {stopped : Session} {between : World}
    (hcounted : Ends (scanFiles table files) started world counted stopped between)
    (hlater : later.files = world.files.without removed)
    (hwhole : FileTree.Fills (Plan.paths table config directory (Plan.accepted config files))
      later.files whole)
    (hobstruct : ∀ location ∈ removed,
      ∃ path ∈ Plan.paths table config directory (Plan.accepted config files),
        world.files.Obstructs location path)
    (hne : stopped.report.pending ≠ []) : SparesReport removed stopped between.files := by
  intro hopen location hm
  have hfilled := hr.fills hcounted
  have hafter := (ends_scanFiles hr hcounted).2.report
  rw [hreport] at hafter
  rw [hafter] at hne hopen hm
  rw [hfilled.medium_eq] at hm
  refine FileTree.not_isBeneath_of_isOpen hfilled hopen (hlater ▸ hwhole) ?_ hobstruct hm
  have hsome : ¬ (Plan.violations table config (Plan.accepted config files)).isEmpty = true := by
    simpa using hne
  exact List.mem_append_right _ (by simp [hsome])

theorem Ready.keepsClear (hr : Ready table config directory started)
    (hnone : started.units.written = []) {whole : FileTree}
    (hlater : later.files = world.files.without removed)
    (hwhole : FileTree.Fills (Plan.paths table config directory (Plan.accepted config files))
      later.files whole)
    (hobstruct : ∀ location ∈ removed,
      ∃ path ∈ Plan.paths table config directory (Plan.accepted config files),
        world.files.Obstructs location path) :
    KeepsClear table removed started world later files := by
  intro earlier rest counted middle between counted' middle' between' hfiles hends hends'
    location hbeneath
  have hfilled := hr.fills hends
  have hfilled' := hr.fills hends'
  rw [hlater] at hfilled' hwhole
  refine FileTree.at?_of_isBeneath hfilled hfilled' hwhole ?_ hobstruct hbeneath
  -- the units of the first files are those of a first round on them
  have haccepted : Plan.accepted config files =
      Plan.accepted config earlier ++ Plan.accepted config rest := by
    simp [Plan.accepted, hfiles]
  rw [hnone, Plan.paths, haccepted, ← Round.first_sources, ← Round.first_sources,
    Round.sources_append, List.map_append, List.append_assoc]
  exact List.subset_append_left _ _

/-- The start of a round is the same with any files. -/
theorem start_anywhere {u : Unit} (later : World)
    (h : Ends (start table) session world u session' world') :
    Ends (start table) session later u session' later := by
  obtain ⟨count, classifier, hseed, rfl⟩ := ends_start_iff.mp h
  obtain ⟨declarations, hfound, hcount, hclassifier, -⟩ := Marker.ends_seed_iff.mp hseed
  exact ends_start_iff.mpr ⟨count, classifier,
    Marker.ends_seed_iff.mpr ⟨declarations, hfound, hcount, hclassifier, rfl⟩, rfl⟩

/-- A first round that ends has written its units to the paths that were planned. -/
theorem path_mem_paths {deferred : List FunctionDecl}
    (h : Ends (round table) (fresh directory config) world deferred session world')
    (hfiles : table.newFiles? = some files) :
    ∀ output ∈ session.units.outputs.created,
      output.path ∈ Plan.paths table config directory (Plan.accepted config files) := by
  obtain ⟨started, between, files', found, scanned, later, written, report, flushed, hstart,
    hfiles', hscan, -, -, rfl, -⟩ := ends_round_iff.mp h
  obtain rfl := Option.some.inj (hfiles.symm.trans hfiles')
  obtain ⟨-, classifier, hknows, rfl⟩ := ends_start hstart
  have hready : Ready table config directory { fresh directory config with classifier } :=
    ⟨rfl, rfl, rfl, hknows⟩
  intro output hm
  rw [(ends_scanFiles hready hscan).2.created] at hm
  obtain ⟨source, hsource, rfl⟩ := List.mem_map.mp hm
  exact List.mem_append_left _ (List.mem_map_of_mem hsource)

/-- A first round that failed since entries obstruct paths of its units or of the report is
held again with these entries removed. Then it ends with what one round without them comes to:
the same functions are deferred, and the units, what is pending, and all files are the same. -/
theorem round_retried {deferred : List FunctionDecl} {halted whole : Session} {halfway done : World}
    (hhalted : Fails (round table) (fresh directory config) world .fileSystem halted halfway)
    (hobstruct : ∀ location ∈ removed, ∃ files, table.newFiles? = some files ∧
      ∃ path ∈ Plan.paths table config directory (Plan.accepted config files),
        world.files.Obstructs location path)
    (hwhole : Ends (round table) (fresh directory config)
      { world with files := world.files.without removed } deferred whole done) :
    ∃ again final, Ends (round table) halted
        { halfway with files := halfway.files.without removed } deferred again final ∧
      again.units = whole.units ∧ again.report = whole.report ∧
      (∀ location, final.files.at? location = done.files.at? location) ∧
      ∀ path, final.files.read? path = done.files.read? path := by
  obtain ⟨started, between, files, hstart, hfiles, hstopped⟩ := fails_round (by simp) hhalted
  obtain ⟨started', between', files', found, scanned, later, written, report, flushed, hstart',
    hfiles', hscan, hflush, rfl, rfl, rfl⟩ := ends_round_iff.mp hwhole
  obtain rfl := Option.some.inj (hfiles.symm.trans hfiles')
  obtain ⟨-, rfl, rfl⟩ := (start_anywhere _ hstart).unique hstart'
  obtain ⟨hbetween, classifier, hknows, rfl⟩ := ends_start hstart
  obtain rfl := hbetween.symm
  have hready : Ready table config directory { fresh directory config with classifier } :=
    ⟨rfl, rfl, rfl, hknows⟩
  have hfills : FileTree.Fills (Plan.paths table config directory (Plan.accepted config files))
      (world.files.without removed) flushed.files := by
    obtain ⟨-, -, hplaced⟩ := ReportWriter.ends_flush hflush
    rw [(ends_scanFiles hready hscan).2.report] at hplaced
    exact (hready.fills hscan).append (Plan.fills_placeReport? hplaced)
  have hpaths : ∀ location ∈ removed,
      ∃ path ∈ Plan.paths table config directory (Plan.accepted config files),
        world.files.Obstructs location path := by
    intro location hm
    obtain ⟨_, hsome, hpath⟩ := hobstruct location hm
    obtain rfl := Option.some.inj (hfiles.symm.trans hsome)
    exact hpath
  let freed : World := { world with files := world.files.without removed }
  have hfreed : freed.files = world.files.without removed := rfl
  have hclear : KeepsClear table removed { fresh directory config with classifier } world freed
      files :=
    hready.keepsClear rfl hfreed hfills hpaths
  let restart : World := { halfway with files := halfway.files.without removed }
  have hw : (fresh directory config).classifier.registry.WellFormed := .ofBase config.preview
  -- the scan is resumed, be it that it stopped at a unit or at the report
  have hresumes : ∃ known resumed left,
      Ends (start table) halted restart () { halted with classifier := known } restart ∧
      Ends (scanFiles table files) { halted with classifier := known } restart found resumed left ∧
      Resumed scanned later.files resumed left.files := by
    rcases hstopped with hfails | ⟨counted, stopped, after, report', hcounted, hflushed, rfl⟩
    · obtain ⟨known, hknown, hagain⟩ :=
        start_again halted restart hw hstart (stays_scanFiles.fails hfails).1.learns
      obtain ⟨resumed, left, hresumed, hdone⟩ :=
        resume_of_fails_scan known restart rfl rfl hfails hscan hclear hknown rfl
      exact ⟨known, resumed, left, hagain, hresumed, hdone⟩
    · obtain ⟨known, hknown, hagain⟩ := start_again { stopped with report := report' } restart hw
        hstart (stays_scanFiles.ends hcounted).learns
      obtain ⟨resumed, left, hresumed, hdone⟩ :=
        resume_of_fails_flush known restart rfl rfl hcounted hflushed hscan hflush hclear
          (hready.sparesReport rfl hcounted hfreed hfills hpaths) hknown rfl
      exact ⟨known, resumed, left, hagain, hresumed, hdone⟩
  obtain ⟨known, resumed, left, hagain, hresumed, hdone⟩ := hresumes
  obtain ⟨final, hlast, hsame⟩ := hdone.flush hflush
  exact ⟨_, _, ends_round_iff.mpr ⟨_, _, files, found, resumed, left, written, report, final,
    hagain, hfiles, hresumed, hlast, rfl, rfl, rfl⟩, hdone.units_eq, rfl, hsame.at_eq, hsame.read?⟩

/-- A file is where the directory above that of the units is to be. -/
theorem cards_retried :
    let before := fresh (Path.parse "/srv/out") { preview := .string "Preview" }
    let removed : List Location := [[Text.ofString "srv"]]
    let blocked : World :=
      .ofFiles { FileTree.empty with entries := [([Text.ofString "srv"], .file .empty)] }
    let freed : World := { blocked with files := blocked.files.without removed }
    ∃ halted halfway deferred whole done,
      Fails (round cards) before blocked .fileSystem halted halfway ∧
      (∀ location ∈ removed, ∃ files, cards.newFiles? = some files ∧
        ∃ path ∈ Plan.paths cards { preview := .string "Preview" } (Path.parse "/srv/out")
            (Plan.accepted { preview := .string "Preview" } files),
          blocked.files.Obstructs location path) ∧
      Ends (round cards) before freed deferred whole done ∧
      ∃ again final, Ends (round cards) halted
          { halfway with files := halfway.files.without removed } deferred again final ∧
        again.units = whole.units ∧ again.report = whole.report ∧
        (∀ location, final.files.at? location = done.files.at? location) ∧
        ∀ path, final.files.read? path = done.files.read? path := by
  intro before removed blocked freed
  obtain ⟨halted, halfway, hhalted⟩ :=
    exists_fails (round cards) before blocked (by decide +kernel)
  obtain ⟨deferred, whole, done, hwhole⟩ :=
    exists_ends (round cards) before freed (by decide +kernel)
  have hcreated : ((round cards : Task (StateM World) Session (List FunctionDecl))
      before freed).1.2.units.outputs.created.map (·.path) =
        [Path.parse "/srv/out/app/CardsScreenshotTest.kt"] := by decide +kernel
  rw [hwhole] at hcreated
  have hobstruct : ∀ location ∈ removed, ∃ files, cards.newFiles? = some files ∧
      ∃ path ∈ Plan.paths cards { preview := .string "Preview" } (Path.parse "/srv/out")
          (Plan.accepted { preview := .string "Preview" } files),
        blocked.files.Obstructs location path := by
    intro location hm
    obtain rfl := List.mem_singleton.mp hm
    obtain ⟨output, ho, hpath⟩ := List.mem_map.mp (hcreated ▸ List.mem_singleton_self _)
    refine ⟨_, rfl, output.path, path_mem_paths hwhole rfl output ho, .inl ⟨?_, .empty, rfl⟩⟩
    rw [hpath]
    decide
  exact ⟨halted, halfway, deferred, whole, done, hhalted, hobstruct, hwhole,
    round_retried hhalted hobstruct hwhole⟩

end Session

end PreviewShots
