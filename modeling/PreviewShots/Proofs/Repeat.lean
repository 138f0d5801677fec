import PreviewShots.Proofs.Replay
import PreviewShots.Proofs.ReportText
import PreviewShots.Proofs.Rounds

/-!
# A round that is held again

A round that has ended knows all verdicts it asks for, has taken the names of its units, and
has its violations in the report. Held again right away it changes nothing, and the same
functions are deferred (`round_again`).
-/

open PreviewShots.Task

namespace PreviewShots

variable {table : SymbolTable} {world world' : World}

-- ---------------------------------------------------------------------------
-- Seeds
-- ---------------------------------------------------------------------------

namespace Marker

variable {registry : MarkerRegistry} {first first' : Classifier} {count : Nat}

theorem promoteAll_of_true {names : List Label}
    (h : ∀ name ∈ names, registry.lookup name = some true) :
    promoteAll registry names = (registry, 0) := by
  induction names with
  | nil => rfl
  | cons name names ih =>
    obtain ⟨hname, hnames⟩ := List.forall_mem_cons.mp h
    obtain ⟨verdict, hverdict, htruthy⟩ := Option.map_eq_some_iff.mp hname
    have hpromote : registry.promote name = registry := by
      simp [MarkerRegistry.promote, hverdict, htruthy]
    simp [promoteAll, hpromote, ih hnames, MarkerRegistry.isPromotable, hname]

theorem ends_seed_iff : Ends (seed table) first world count first' world' ↔ ∃ declarations,
    let search := table.annotatedWith first.registry.base
    let promoted := promoteAll first.registry (classNames declarations)
    search.found? = some declarations ∧ count = promoted.2 ∧
      first' = { first.note table search.names with registry := promoted.1 } ∧ world' = world := by
  simp only [seed, ends_bind, ends_get, ends_search_iff, ends_modify, ends_pure]
  constructor
  · rintro ⟨_, _, _, ⟨rfl, rfl, rfl⟩, declarations, _, _, ⟨hfound, rfl, rfl⟩,
      _, _, _, ⟨rfl, rfl, rfl⟩, _, _, _, ⟨rfl, rfl⟩, rfl, rfl, rfl⟩
    exact ⟨declarations, hfound, rfl, rfl, rfl⟩
  · rintro ⟨declarations, hfound, rfl, rfl, rfl⟩
    exact ⟨_, _, _, ⟨rfl, rfl, rfl⟩, declarations, _, _, ⟨hfound, rfl, rfl⟩,
      _, _, _, ⟨rfl, rfl, rfl⟩, ⟨⟩, _, _, ⟨rfl, rfl⟩, rfl, rfl, rfl⟩

/-- A seed promotes nothing if all that another one promoted is true still. -/
theorem seed_again (second : Classifier) (later : World) (hw : first.registry.WellFormed)
    (h : Ends (seed table) first world count first' world')
    (hs : Settles table first'.registry second.registry) :
    ∃ second', Ends (seed table) second later 0 second' later ∧
      second'.registry = second.registry := by
  obtain ⟨declarations, hfound, -, rfl, -⟩ := ends_seed_iff.mp h
  have hp := promoteAll_promoted hw (classNames declarations)
  have hbase : second.registry.base = first.registry.base := hs.base.trans hp.base
  have hnone : promoteAll second.registry (classNames declarations) = (second.registry, 0) := by
    refine promoteAll_of_true fun name hm => hs.kept name true ((hp.isTrue_iff name).mpr (.inr ?_))
    exact Label.has_iff.mpr ⟨name, hm, rfl⟩
  refine ⟨_, ends_seed_iff.mpr ⟨declarations, hbase ▸ hfound, ?_, rfl, rfl⟩, ?_⟩
  · rw [hnone]
  · simp only [hnone]

end Marker

-- ---------------------------------------------------------------------------
-- Units
-- ---------------------------------------------------------------------------

/-- The second writer has taken all names that it may, and nothing becomes of its tree. -/
structure UnitWriter.HasTaken (taken : UnitWriter) (held : FileTree) (first : UnitWriter)
    (_ : FileTree) (second : UnitWriter) (tree' : FileTree) : Prop where
  suffix : first.suffix = taken.suffix
  units_eq : second = taken
  tree_eq : tree' = held

/-- What was written is passed over by a writer that has taken all names. -/
theorem UnitWriter.writesAgain_taken (taken : UnitWriter) (held : FileTree) :
    Session.WritesAgain (·.written ⊆ taken.written) (HasTaken taken held) := by
  intro source fragments world first first' world' written h hlimit
  cases fragments with
  | nil =>
    obtain ⟨rfl, rfl, rfl⟩ := ends_pure.mp h
    exact ⟨hlimit, fun second later hl => ⟨none, second, later, ends_pure.mpr ⟨rfl, rfl, rfl⟩, hl⟩⟩
  | cons fragment fragments =>
    obtain ⟨file, hfile, hcase⟩ := ends_write_cons_iff.mp h
    -- the name is taken, be it before or by the unit
    have hname : (first.keyFor file fragment).qualifiedName ∈ first'.written ∧
        first.written ⊆ first'.written ∧ first'.suffix = first.suffix := by
      rcases hcase with ⟨htaken, -, rfl, -⟩ | ⟨package, -, -, rfl, -⟩
      · exact ⟨htaken, List.Subset.refl _, rfl⟩
      · exact ⟨by simp, by simp, rfl⟩
    obtain ⟨hname, hkept, hsuffix⟩ := hname
    refine ⟨List.Subset.trans hkept hlimit, ?_⟩
    rintro second later ⟨hfirst, rfl, rfl⟩
    have hkey : second.keyFor file fragment = first.keyFor file fragment := by
      simp [keyFor, hfirst]
    refine ⟨none, second, later, ends_write_cons_iff.mpr ⟨file, hfile, .inl ⟨?_, rfl, rfl, rfl⟩⟩,
      hsuffix.trans hfirst, rfl, rfl⟩
    exact hkey ▸ hlimit hname

namespace Session

variable {config : Config} {directory : Path} {session session' : Session}

-- ---------------------------------------------------------------------------
-- Sessions after any rounds
-- ---------------------------------------------------------------------------

/-- What all rounds of a session have in common. -/
structure Continues (before after : Session) : Prop where
  config_eq : after.config = before.config
  naming_eq : after.units.naming = before.units.naming
  wellFormed : before.classifier.registry.WellFormed → after.classifier.registry.WellFormed

instance : IsPreorder Session Continues where
  refl _ := ⟨rfl, rfl, id⟩
  trans _ _ _ h h' := ⟨h'.config_eq.trans h.config_eq, h'.naming_eq.trans h.naming_eq,
    h'.wellFormed ∘ h.wellFormed⟩

theorem continues_round :
    Stays Continues (fun _ => True) (round (m := StateM World) table) := by
  have hstart : Stays Continues (fun _ => True) (start (m := StateM World) table) :=
    stays_start.mono (fun _ _ h => ⟨h.config_eq, congrArg UnitWriter.naming h.units_eq,
      h.keepsForm⟩) fun _ _ => trivial
  have hscan (files : List SourceFile) : Stays Continues (fun _ => True)
      (scanFiles (m := StateM World) table files) :=
    stays_scanFiles.mono (fun _ _ h => ⟨h.config_eq, h.naming_eq, h.learns.wellFormed⟩)
      fun _ _ => trivial
  have hflush : Stays Continues (fun _ => True)
      (onReport (ReportWriter.flush (m := StateM World))) :=
    stays_within (ReportWriter.stays_flush.mono (fun _ _ => id) fun _ _ => trivial)
      fun _ _ _ => ⟨rfl, rfl, id⟩
  exact stays_bind hstart fun _ => stays_bind (stays_ofOption trivial) fun _ =>
    stays_bind (hscan _) fun _ => stays_bind hflush fun _ =>
      stays_bind stays_get fun _ => stays_bind stays_notify fun _ => stays_pure

/-- What a session can come to by rounds, whatever becomes of them. -/
inductive Arises (config : Config) (directory : Path) : Session → Prop
  | fresh : Arises config directory (fresh directory config)
  | round {session : Session} (table : SymbolTable) (world : World) :
      Arises config directory session →
      Arises config directory
        ((round table : Task (StateM World) Session (List FunctionDecl)) session world).1.2

theorem Arises.continues (h : Arises config directory session) :
    Continues (.fresh directory config) session := by
  induction h with
  | fresh => exact Std.Refl.refl _
  | round table world _ ih => exact IsTrans.trans _ _ _ ih (continues_round _ world).1

-- ---------------------------------------------------------------------------
-- Rounds
-- ---------------------------------------------------------------------------

theorem ends_start_iff {u : Unit} : Ends (start table) session world u session' world' ↔
    ∃ count classifier, Ends (Marker.seed table) { session.classifier with stubs := [] } world
      count classifier world' ∧ session' = { session with classifier } := by
  simp only [start, onClassifier, ends_bind, ends_modify, ends_within, ends_pure]
  constructor
  · rintro ⟨_, _, _, ⟨rfl, rfl⟩, count, _, _, ⟨classifier, hseed, rfl⟩, -, rfl, rfl⟩
    exact ⟨count, classifier, hseed, rfl⟩
  · rintro ⟨count, classifier, hseed, rfl⟩
    exact ⟨⟨⟩, _, _, ⟨rfl, rfl⟩, count, _, _, ⟨classifier, hseed, rfl⟩, trivial, rfl, rfl⟩

/-- A round seeds its markers, scans the new files and flushes the report. -/
theorem ends_round_iff {deferred : List FunctionDecl} :
    Ends (round table) session world deferred session' world' ↔
      ∃ started between files found scanned later written report flushed,
        Ends (start table) session world () started between ∧ table.newFiles? = some files ∧
        Ends (scanFiles table files) started between found scanned later ∧
        Ends ReportWriter.flush scanned.report later written report flushed ∧
        deferred = found.2 ∧ session' = { scanned with report } ∧
        world' = { flushed with notices := flushed.notices ++
          [.roundDone found.1 scanned.units.written.length found.2.length] } := by
  simp only [round, onReport, ends_bind, ends_ofOption, ends_within, ends_notify, ends_pure,
    ends_get]
  constructor
  · rintro ⟨_, _, _, hstart, files, started, between, ⟨hfiles, rfl, rfl⟩, found, scanned, later,
      hscan, written, _, _, ⟨report, hflush, rfl⟩, _, _, flushed, ⟨rfl, rfl, rfl⟩, _, _, _,
      ⟨rfl, rfl⟩, rfl, rfl, rfl⟩
    exact ⟨started, between, files, found, scanned, later, written, report, flushed, hstart,
      hfiles, hscan, hflush, rfl, rfl, rfl⟩
  · rintro ⟨started, between, files, found, scanned, later, written, report, flushed, hstart,
      hfiles, hscan, hflush, rfl, rfl, rfl⟩
    exact ⟨(), started, between, hstart, files, _, _, ⟨hfiles, rfl, rfl⟩, found, scanned, later,
      hscan, written, _, flushed, ⟨report, hflush, rfl⟩, _, _, _, ⟨rfl, rfl, rfl⟩, (), _, _,
      ⟨rfl, rfl⟩, rfl, rfl, rfl⟩

/-- A scan is passed over by a session that knows its verdicts and has its units. -/
theorem repeats_known (table : SymbolTable) (memory : MarkerRegistry) (taken : UnitWriter)
    (held : FileTree) (pending pending' : List Violation) (files : List SourceFile) :
    Repeats (IsWithin (·.IsWithin memory) (·.written ⊆ taken.written))
      (Alike (fun _ second => second = memory) (UnitWriter.HasTaken taken held) pending pending')
      (scanFiles (m := StateM World) table files) :=
  repeats_scanFiles (Marker.replays_known table memory) (UnitWriter.writesAgain_taken taken held)

/-- A session that has come through a scan has taken what the scan takes, whatever it knows
besides and whatever is pending. -/
theorem Scans.taken {scanned : Session} {known : Classifier} {report : ReportWriter}
    (h : Scans table session scanned)
    (hknown : known.registry = scanned.classifier.registry)
    (hpath : report.path = session.report.path) (tree held : FileTree) :
    Alike (fun _ second => second = scanned.classifier.registry)
      (UnitWriter.HasTaken scanned.units held) session.report.pending report.pending
      session tree { scanned with classifier := known, report } held :=
  ⟨h.config_eq, hknown, hpath, ⟨[], by simp⟩, ⟨congrArg Prod.fst h.naming_eq.symm, rfl, rfl⟩⟩

/-- Held again, the start of a round changes nothing but what is noted of its table. -/
theorem start_again {started : Session} {between : World} (second : Session) (later : World)
    (hw : session.classifier.registry.WellFormed)
    (h : Ends (start table) session world () started between)
    (hs : Marker.Settles table started.classifier.registry second.classifier.registry) :
    ∃ classifier, classifier.registry = second.classifier.registry ∧
      Ends (start table) second later () { second with classifier } later := by
  obtain ⟨count, classifier, hseed, rfl⟩ := ends_start_iff.mp h
  have hnoted : ({ session.classifier with stubs := [] } : Classifier).registry.WellFormed := hw
  obtain ⟨classifier', hseed', hregistry⟩ :=
    Marker.seed_again { second.classifier with stubs := [] } later hnoted hseed hs
  exact ⟨classifier', hregistry, ends_start_iff.mpr ⟨0, classifier', hseed', rfl⟩⟩

theorem exists_function_of_mem_violations {r : Round} {files : List SourceFile}
    {violation : Violation} (h : violation ∈ r.violations files) :
    ∃ file ∈ files, ∃ function ∈ file.functions, violation = ⟨file.path, function.simpleName⟩ := by
  obtain ⟨file, hfile, hm⟩ := List.mem_flatMap.mp h
  obtain ⟨function, hf, rfl⟩ := List.mem_map.mp hm
  exact ⟨file, hfile, function, List.mem_of_mem_filter hf, rfl⟩

/-- A round that ends is held again right away with nothing changed: not the files, the
verdicts, the units or what is pending, and the same functions are deferred. No violation
that was recorded may have a line end in it, or be blank at its ends: it would not read back
from the report. -/
theorem round_again {deferred : List FunctionDecl} (hsession : Arises config directory session)
    (h : Ends (round table) session world deferred session' world')
    (hlines : ∀ files, table.newFiles? = some files →
      ∀ violation ∈ session.report.pending ++
          (session.roundOf table world).violations (Plan.accepted config files),
        violation.record.line.IsLine) :
    ∃ session'' world'', Ends (round table) session' world' deferred session'' world'' ∧
      world''.files = world'.files ∧
      session''.classifier.registry = session'.classifier.registry ∧
      session''.units = session'.units ∧ session''.report = session'.report := by
  obtain ⟨hconfig, hnaming, hform⟩ := hsession.continues
  have hw : session.classifier.registry.WellFormed := hform (.ofBase config.preview)
  obtain ⟨started, between, files, found, scanned, later, written, report, flushed, hstart, hfiles,
    hscan, hflush, rfl, rfl, rfl⟩ := ends_round_iff.mp h
  obtain ⟨hbetween, classifier, -, hregistry, rfl⟩ := ends_seed hw hstart
  obtain rfl := hbetween.symm
  have hserved : (session.roundOf table world).IsServed { session with classifier } := by
    refine ⟨rfl, (congrArg Prod.fst hnaming).trans ?_, fun key => ?_⟩
    · exact congrArg Config.suffix hconfig.symm
    · rw [← hregistry]
      rfl
  obtain ⟨-, hscanned⟩ := Round.ends_scanFiles hserved hscan
  have hpending : ∀ violation ∈ scanned.report.pending, violation.record.line.IsLine := by
    rw [hscanned.report, show (session.roundOf table world).config = config from hconfig]
    exact hlines files hfiles
  obtain ⟨hreport, -, -⟩ := ReportWriter.ends_flush hflush
  -- the second round starts from all that the first one found out
  let world' : World := { flushed with notices := flushed.notices ++
    [.roundDone found.1 scanned.units.written.length found.2.length] }
  obtain ⟨known, hknown, hstart'⟩ :=
    start_again { scanned with report } world' hw hstart hscanned.settles
  have hrepeats := repeats_known table scanned.classifier.registry scanned.units
    world'.files session.report.pending report.pending files
  obtain ⟨-, hfollow⟩ := hrepeats _ _ _ _ _ hscan ⟨fun _ _ => id, List.Subset.refl _⟩
  obtain ⟨again, later', hscan', halike⟩ := hfollow { scanned with classifier := known, report }
    world' ((stays_scanFiles.ends hscan).taken hknown (by rw [hreport, hscanned.report]) _ _)
  obtain ⟨more, hmore, hagain⟩ := halike.pending
  obtain ⟨written', flushed', hflush', hsame⟩ := ReportWriter.flush_again hflush
    halike.units.tree_eq halike.path_eq (by rw [hmore, hagain, hreport]; simp) hpending
  exact ⟨_, _, ends_round_iff.mpr ⟨_, _, files, found, again, later', written', report, flushed',
    hstart', hfiles, hscan', hflush', rfl, rfl, rfl⟩, hsame, halike.registries,
    halike.units.units_eq, rfl⟩

/-- A round with a unit, a violation and a deferred function, and the same one again. -/
theorem cards_again : let before := fresh (Path.parse "out") { preview := .string "Preview" }
    ∃ deferred session' world', Arises { preview := .string "Preview" } (Path.parse "out") before ∧
      Ends (round cards) before (.ofFiles .empty) deferred session' world' ∧
      (∀ files, cards.newFiles? = some files → ∀ violation ∈ before.report.pending ++
          (before.roundOf cards (.ofFiles .empty)).violations
            (Plan.accepted { preview := .string "Preview" } files),
        violation.record.line.IsLine) ∧
      ∃ session'' world'', Ends (round cards) session' world' deferred session'' world'' ∧
        world''.files = world'.files ∧
        session''.classifier.registry = session'.classifier.registry ∧
        session''.units = session'.units ∧ session''.report = session'.report := by
  intro before
  obtain ⟨deferred, session', world', h⟩ :=
    exists_ends (round cards) before (.ofFiles .empty) (by decide +kernel)
  have hlines : ∀ file ∈ cards.files, ∀ function ∈ file.functions,
      (Violation.mk file.path function.simpleName).record.line.IsLine := by decide
  have hviolations : ∀ files, cards.newFiles? = some files →
      ∀ violation ∈ before.report.pending ++ (before.roundOf cards (.ofFiles .empty)).violations
          (Plan.accepted { preview := .string "Preview" } files),
        violation.record.line.IsLine := by
    intro files hfiles violation hm
    obtain rfl := Option.some.inj hfiles
    rcases List.mem_append.mp hm with hm | hm
    · cases hm
    · obtain ⟨file, hfile, function, hf, rfl⟩ := exists_function_of_mem_violations hm
      exact hlines file (List.mem_of_mem_filter hfile) function hf
  exact ⟨deferred, session', world', .fresh, h, hviolations, round_again .fresh h hviolations⟩

end Session

end PreviewShots
