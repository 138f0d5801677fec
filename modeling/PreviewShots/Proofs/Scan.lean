import PreviewShots.Proofs.Selection
import PreviewShots.Proofs.Synthesis
import PreviewShots.Proofs.UnitWriter
import PreviewShots.Proofs.VisibilityReport

/-!
# A scan by the plan

The steps of a round, from the functions of a file to all new files, each as planned. A
scan of files is composed of scans of one file (`Scanned.trans`), and leaves behind what is
planned for them, all of it and nothing else (`ends_scanFiles`).
-/

open PreviewShots.Task PreviewShots.Session

namespace PreviewShots.Round

variable {r : Round} {session session' : Session} {world world' : World}

/-- A session at work on a round. -/
structure IsServed (r : Round) (session : Session) : Prop where
  config_eq : session.config = r.config
  suffix : session.units.suffix = r.config.suffix
  known : r.IsKnown session.classifier.registry

theorem IsServed.update (hr : r.IsServed session) {classifier : Classifier}
    (hs : Marker.Settles r.table session.classifier.registry classifier.registry)
    (report : ReportWriter) : r.IsServed { session with classifier, report } :=
  ⟨hr.config_eq, hr.suffix, hr.known.settles hs⟩

-- ---------------------------------------------------------------------------
-- Functions
-- ---------------------------------------------------------------------------

/-- Selecting from functions records their violations. -/
theorem ends_selectFrom {file : SourceFile} {functions : List FunctionDecl} {selection : Selection}
    (hr : r.IsServed session)
    (h : Ends (selectFrom r.table true file functions) session world selection session' world') :
    selection = ⟨r.eligibleOf file functions, r.deferredOf functions⟩ ∧
    ∃ classifier', Marker.Settles r.table session.classifier.registry classifier'.registry ∧
      session' = { session with
        classifier := classifier'
        report := ⟨session.report.path,
          session.report.pending ++ r.violationsOf file.path functions⟩ } ∧
      world'.files = world.files ∧
      world'.warned = world.warned ++ (r.violationsOf file.path functions).map (·.record) := by
  induction functions generalizing session world selection with
  | nil =>
    obtain ⟨rfl, rfl, rfl⟩ := ends_pure.mp h
    refine ⟨rfl, session'.classifier, .refl, ?_, rfl, ?_⟩ <;> simp [violationsOf]
  | cons function functions ih =>
    simp only [selectFrom, onClassifier, ends_bind, ends_get, ends_within] at h
    obtain ⟨_, session, _, ⟨rfl, rfl, rfl⟩, decision, _, world,
      ⟨classifier, hdecision, rfl⟩, hrest⟩ := h
    rw [hr.config_eq] at hdecision
    obtain ⟨rfl, hsettles, hdecides⟩ := ends_decision hr.known hdecision
    -- whatever the decision, the others are selected from once its violation is recorded
    let here := recorded file.path function decision
    have hrecord : ∃ between, between.files = world.files ∧
        between.warned = world.warned ++ here.map (·.record) ∧
        Ends (do return (← selectFrom r.table true file functions).add file function decision)
          { session with
            classifier
            report := ⟨session.report.path, session.report.pending ++ here⟩ }
          between selection session' world' := by
      cases decision with
      | violation =>
        simp only [↓reduceIte, onReport] at hrest
        obtain ⟨_, _, between, hwithin, hlater⟩ := ends_bind.mp hrest
        obtain ⟨report, hrecord, rfl⟩ := ends_within.mp hwithin
        obtain ⟨rfl, hfiles, hwarned⟩ := ReportWriter.ends_record hrecord
        exact ⟨between, hfiles, hwarned, hlater⟩
      | _ =>
        refine ⟨world, rfl, by simp [here, recorded], ?_⟩
        simpa [here, recorded] using hrest
    obtain ⟨between, hfiles, hwarned, hselect⟩ := hrecord
    obtain ⟨later, _, _, hlater, hadd⟩ := ends_bind.mp hselect
    obtain ⟨rfl, rfl, rfl⟩ := ends_pure.mp hadd
    obtain ⟨rfl, classifier', hsettles', rfl, hfiles', hwarned'⟩ := ih (hr.update hsettles _) hlater
    refine ⟨add_planned hdecides, classifier', hsettles.trans hsettles', ?_,
      hfiles'.trans hfiles, ?_⟩
    · simp [violationsOf_cons hdecides, here]
    · rw [hwarned', hwarned, violationsOf_cons hdecides]
      simp [here]

-- ---------------------------------------------------------------------------
-- Files
-- ---------------------------------------------------------------------------

/-- What a scan of accepted files comes to. -/
structure Scanned (r : Round) (files : List SourceFile) (before after : Session)
    (world world' : World) : Prop where
  config_eq : after.config = before.config
  suffix : after.units.suffix = before.units.suffix
  directory_eq : after.units.outputs.directory = before.units.outputs.directory
  settles : Marker.Settles r.table before.classifier.registry after.classifier.registry
  report : after.report = ⟨before.report.path, before.report.pending ++ r.violations files⟩
  written : after.units.written = before.units.written ++
    (r.sources before.units.written files).map (·.1.qualifiedName)
  created : after.units.outputs.created = before.units.outputs.created ++
    (r.sources before.units.written files).map (Plan.output before.units.outputs.directory)
  distinct : (before.units.outputs.created.map (·.path.toText)).Nodup →
    (after.units.outputs.created.map (·.path.toText)).Nodup
  warned : world'.warned = world.warned ++ (r.violations files).map (·.record)
  placed : (r.sources before.units.written files).foldlM
    (r.placeUnit? before.units.outputs.directory) world.files = some world'.files
  encodable : ∀ source ∈ r.sources before.units.written files,
    (r.unitText source.1 source.2).isEncodable = true
  tested : ∀ eligible ∈ r.eligible files,
    (Synthesis.fragment? r.table r.config eligible).isSome

theorem Scanned.refl (r : Round) (session : Session) (world : World) :
    Scanned r [] session session world world := by
  refine ⟨rfl, rfl, rfl, .refl, ?_, ?_, ?_, id, ?_, rfl, ?_, ?_⟩ <;>
    simp [sources, violations, eligible]

theorem Scanned.trans {files more : List SourceFile} {first second third : Session}
    {world world₁ world₂ : World} (h : Scanned r files first second world world₁)
    (h' : Scanned r more second third world₁ world₂) :
    Scanned r (files ++ more) first third world world₂ := by
  have hsources := r.sources_append first.units.written files more
  rw [← h.written] at hsources
  have hdirectory := h.directory_eq
  refine ⟨h'.config_eq.trans h.config_eq, h'.suffix.trans h.suffix, h'.directory_eq.trans hdirectory,
    h.settles.trans h'.settles, ?_, ?_, ?_, h'.distinct ∘ h.distinct, ?_, ?_, ?_, ?_⟩
  · simp [h'.report, h.report, violations]
  · simp [h'.written, h.written, hsources]
  · simp [h'.created, h.created, hsources, hdirectory]
  · simp [h'.warned, h.warned, violations]
  · simp [← h'.placed, h.placed, hsources, hdirectory, List.foldlM_append]
  · intro source hs
    rw [hsources] at hs
    rcases List.mem_append.mp hs with hs | hs
    · exact h.encodable source hs
    · exact h'.encodable source hs
  · intro eligible hm
    rw [Round.eligible, List.flatMap_append] at hm
    rcases List.mem_append.mp hm with hm | hm
    · exact h.tested eligible hm
    · exact h'.tested eligible hm

/-- The unit of one file is written as planned. -/
theorem ends_writeUnit {file : SourceFile} {units units' : UnitWriter} {written : Option UnitKey}
    (hsuffix : units.suffix = r.config.suffix)
    (htested : ∀ eligible ∈ r.eligibleOf file file.functions,
      (Synthesis.fragment? r.table r.config eligible).isSome)
    (h : Ends (UnitWriter.write file.path (r.fragments file)) units world written units' world') :
    let planned := r.sources units.written [file]
    units' = { units with
      outputs := ⟨units.outputs.directory,
        units.outputs.created ++ planned.map (Plan.output units.outputs.directory)⟩
      written := units.written ++ planned.map (·.1.qualifiedName) } ∧
    ((units.outputs.created.map (·.path.toText)).Nodup →
      (units'.outputs.created.map (·.path.toText)).Nodup) ∧
    world'.warned = world.warned ∧
    (∀ source ∈ planned, (r.unitText source.1 source.2).isEncodable = true) ∧
    planned.foldlM (r.placeUnit? units.outputs.directory) world.files = some world'.files := by
  intro planned
  cases hes : r.eligibleOf file file.functions with
  | nil =>
    have hplanned : planned = [] := by simp [planned, sources, unitKey?, hes]
    rw [fragments, hes] at h
    obtain ⟨rfl, rfl, rfl⟩ := ends_pure.mp h
    simp [hplanned]
  | cons eligible rest =>
    obtain ⟨first, hfirst⟩ := Option.isSome_iff_exists.mp (htested eligible (by simp [hes]))
    have hfragments : r.fragments file =
        first :: rest.filterMap (Synthesis.fragment? r.table r.config) := by
      simp [fragments, hes, hfirst]
    rw [hfragments] at h
    obtain ⟨path, hpath, hwrite⟩ := UnitWriter.ends_write_cons h
    -- the first fragment is of the first eligible function, so both name the same unit
    have hkey : r.unitKey? file = some (units.keyFor path first) := by
      have hname : file.fileName = FileName.ofPath path := by
        cases hfile : file.path <;> simp_all [Label.text?, SourceFile.fileName, Json.plain]
      simp [unitKey?, hes, UnitWriter.keyFor, hname, hsuffix,
        Synthesis.eq_of_fragment? hfirst, Synthesis.fragment]
    have hplanned : planned = if (units.keyFor path first).qualifiedName ∈ units.written then []
        else [(units.keyFor path first, file)] := by
      simp [planned, sources, hkey]
    rw [hplanned]
    dsimp only at hwrite
    split at hwrite
    · next htaken =>
      obtain ⟨-, rfl, rfl⟩ := hwrite
      simp [htaken]
    next hfree =>
    obtain ⟨-, package, hpackage, hunused, rfl, hwarned, hencodable, hfiles⟩ := hwrite
    have hpath : units.outputs.pathFor package (units.keyFor path first).file "kt" =
        Plan.unitPath units.outputs.directory (units.keyFor path first) := by
      simp [Plan.unitPath, hpackage, Outputs.pathFor, Outputs.packageDirectory, Outputs.ofDirectory]
    rw [hpath] at hunused hfiles ⊢
    have htext : r.unitText (units.keyFor path first) file =
        TestFile.render package (first :: rest.filterMap (Synthesis.fragment? r.table r.config)) := by
      simp [unitText, hpackage, hfragments]
    simp only [hfree, ↓reduceIte]
    refine ⟨?_, Outputs.nodup_add hunused, hwarned, ?_, ?_⟩
    · simp [Outputs.add, Plan.output]
    · simpa [htext] using hencodable
    · simp [hfiles, placeUnit?, htext]

theorem ends_scanFile {file : SourceFile} {deferred : List FunctionDecl} (hr : r.IsServed session)
    (h : Ends (scanFile r.table file) session world deferred session' world') :
    deferred = r.deferredOf file.functions ∧ Scanned r [file] session session' world world' := by
  simp only [scanFile, select, onUnits, ends_bind, ends_within, ends_pure] at h
  obtain ⟨_, _, _, hselect, fragments, _, _, hsynthesize, written, _, _, ⟨units, hwrite, rfl⟩,
    rfl, rfl, rfl⟩ := h
  obtain ⟨rfl, classifier, hsettles, rfl, hfiles, hwarned⟩ := ends_selectFrom hr hselect
  obtain ⟨hfragments, classifier', hregistry, rfl, hfiles', hwarned'⟩ :=
    ends_synthesizeAll hsynthesize
  replace hfragments : Synthesis.AreFragments r.table r.config _ fragments :=
    hr.config_eq ▸ hfragments
  have htested := hfragments.isSome
  rw [← hfragments.eq_filterMap] at hwrite
  obtain ⟨rfl, hdistinct, hwarned'', hencodable, hplaced⟩ :=
    ends_writeUnit hr.suffix htested hwrite
  refine ⟨rfl, rfl, rfl, rfl, hregistry ▸ hsettles, ?_, rfl, rfl, hdistinct, ?_, ?_, hencodable, ?_⟩
  · simp [violations]
  · simp [hwarned'', hwarned', hwarned, violations]
  · rw [← hplaced, hfiles', hfiles]
  · simpa [eligible] using htested

theorem Scanned.isServed {files : List SourceFile} (hr : r.IsServed session)
    (h : Scanned r files session session' world world') : r.IsServed session' :=
  ⟨h.config_eq.trans hr.config_eq, h.suffix.trans hr.suffix, hr.known.settles h.settles⟩

theorem ends_scanFiles {files : List SourceFile} {found : Nat × List FunctionDecl}
    (hr : r.IsServed session)
    (h : Ends (scanFiles r.table files) session world found session' world') :
    found.2 = r.deferred (Plan.accepted r.config files) ∧
      Scanned r (Plan.accepted r.config files) session session' world world' := by
  induction files generalizing session world found with
  | nil =>
    obtain ⟨rfl, rfl, rfl⟩ := ends_pure.mp h
    exact ⟨rfl, .refl r _ _⟩
  | cons file files ih =>
    simp only [scanFiles, accepts, ends_bind, ends_get, ends_ofOption] at h
    obtain ⟨accepted, _, _, ⟨_, session, world, ⟨rfl, rfl, rfl⟩, haccepts, rfl, rfl⟩, hscan⟩ := h
    rw [hr.config_eq] at haccepts
    have haccepted := Plan.isAccepted_iff haccepts
    split at hscan
    · next hyes =>
      simp only [ends_bind, ends_pure] at hscan
      obtain ⟨deferred, _, _, hfile, ⟨count, later⟩, _, _, hrest, rfl, rfl, rfl⟩ := hscan
      obtain ⟨rfl, hscanned⟩ := ends_scanFile hr hfile
      obtain ⟨hlater, hscanned'⟩ := ih (hscanned.isServed hr) hrest
      have hfiles : Plan.accepted r.config (file :: files) =
          [file] ++ Plan.accepted r.config files := by
        simp [Plan.accepted, haccepted.mp hyes]
      rw [hfiles]
      refine ⟨?_, hscanned.trans hscanned'⟩
      simpa [deferred] using hlater
    · next hno =>
      have hfiles : Plan.accepted r.config (file :: files) = Plan.accepted r.config files := by
        simp [Plan.accepted, mt haccepted.mpr hno]
      rw [hfiles]
      exact ih hr hscan

end PreviewShots.Round
