import PreviewShots.Proofs.Emission
import PreviewShots.Proofs.Session
import PreviewShots.Proofs.Steps

/-!
# Units are written once

A round goes through steps that leave the units of the session alone, and through emissions.
So in whatever state the rounds of a session leave it, be it that some of them failed, its
outputs are those of the units whose files it opened, and its names those of the units it
wrote (`units_written_once`). A unit that breaks off is an output without a name, and a later
round that asks for it fails; a name that is no text may stand for the file of another unit
(`units_lost`).
-/

open PreviewShots.Task

namespace PreviewShots

variable {world world' : World} {fault : Fault}

namespace Session

variable {table : SymbolTable} {config : Config} {session session' : Session} {α β : Type}
  {directory : Path} {suffix : Text} {openings : List Opening}

theorem mem_of_ends_selectFrom {audited : Bool} {file : SourceFile}
    {functions : List FunctionDecl} {selection : Selection}
    (h : Ends (selectFrom table audited file functions) session world selection session' world') :
    ∀ eligible ∈ selection.eligible, eligible.function ∈ functions := by
  induction functions generalizing session world selection session' world' with
  | nil =>
    obtain ⟨rfl, -, -⟩ := ends_pure.mp h
    simp [Selection.empty]
  | cons function functions ih =>
    simp only [selectFrom_cons, ends_bind, ends_pure] at h
    obtain ⟨_, _, _, -, decision, _, _, -, _, _, _, -, later, _, _, hlater, rfl, -, -⟩ := h
    intro eligible he
    cases decision with
    | eligible markers =>
      rcases List.mem_cons.mp he with rfl | he
      · exact List.mem_cons_self
      · exact List.mem_cons_of_mem _ (ih hlater eligible he)
    | _ => exact List.mem_cons_of_mem _ (ih hlater eligible he)

/-- Whatever becomes of the task, the units of the session go on from those it had. What is
opened in a task that ends is written to the end, so a path that is asked for twice is that of
a unit which had broken off before. -/
structure Advances (directory : Path) (suffix : Text) (openings : List Opening)
    (task : Task (StateM World) Session α) (session : Session) (world : World) : Prop where
  ends : ∀ {a : α} {session' : Session} {world' : World},
    Ends task session world a session' world' → ∃ more, (∀ opening ∈ more, opening.whole = true) ∧
      UnitWriter.Reached directory suffix session'.units (openings ++ more)
  fails : ∀ {fault : Fault} {session' : Session} {world' : World},
    Fails task session world fault session' world' →
      (∃ more, UnitWriter.Reached directory suffix session'.units (openings ++ more)) ∧
      ∀ path, fault = .alreadyCreated path → ∃ opening ∈ openings, opening.whole = false ∧
        path = (opening.output directory).path.toText

theorem Advances.of_stays {task : Task (StateM World) Session α}
    (h : Stays (Spared units) IsNew task)
    (hreached : UnitWriter.Reached directory suffix session.units openings) :
    Advances directory suffix openings task session world := by
  refine ⟨fun hends => ⟨[], nofun, ?_⟩, fun hfails => ⟨⟨[], ?_⟩, fun path hfault => ?_⟩⟩
  · rw [h.ends hends, List.append_nil]
    exact hreached
  · rw [(h.fails hfails).1, List.append_nil]
    exact hreached
  · exact absurd hfault ((h.fails hfails).2 path)

/-- A step that does not look at files. -/
theorem Advances.of_proceeds {task : Task (StateM World) Session α}
    (h : Stays (Proceeds table) (· = .illTyped) task)
    (hreached : UnitWriter.Reached directory suffix session.units openings) :
    Advances directory suffix openings task session world := by
  refine .of_stays (h.mono (fun _ _ hp => hp.units_eq) ?_) hreached
  rintro fault rfl path
  simp

theorem Advances.bind {task : Task (StateM World) Session α}
    {next : α → Task (StateM World) Session β}
    (h : Advances directory suffix openings task session world)
    (hnext : ∀ {a middle between more}, Ends task session world a middle between →
      UnitWriter.Reached directory suffix middle.units (openings ++ more) →
      Advances directory suffix (openings ++ more) (next a) middle between) :
    Advances directory suffix openings (task >>= next) session world := by
  constructor
  · intro b session' world' hends
    obtain ⟨a, middle, between, hfirst, hrest⟩ := ends_bind.mp hends
    obtain ⟨more, hwhole, hreached⟩ := h.ends hfirst
    obtain ⟨later, hwhole', hreached'⟩ := (hnext hfirst hreached).ends hrest
    exact ⟨more ++ later, List.forall_mem_append.mpr ⟨hwhole, hwhole'⟩,
      by rwa [List.append_assoc] at hreached'⟩
  · intro fault session' world' hfails
    rcases fails_bind.mp hfails with hfirst | ⟨a, middle, between, hfirst, hrest⟩
    · exact h.fails hfirst
    obtain ⟨more, hwhole, hreached⟩ := h.ends hfirst
    obtain ⟨⟨later, hreached'⟩, hbroken⟩ := (hnext hfirst hreached).fails hrest
    refine ⟨⟨more ++ later, by rwa [List.append_assoc] at hreached'⟩, fun path hfault => ?_⟩
    obtain ⟨opening, ho, hpart, hpath⟩ := hbroken path hfault
    rcases List.mem_append.mp ho with ho | ho
    · exact ⟨opening, ho, hpart, hpath⟩
    · exact absurd (hwhole opening ho) (Bool.eq_false_iff.mp hpart)

theorem advances_pure {a : α}
    (hreached : UnitWriter.Reached directory suffix session.units openings) :
    Advances directory suffix openings (pure a) session world :=
  .of_stays stays_pure hreached

theorem advances_write {source : Label} {fragments : List Fragment} (hd : directory.IsRead)
    (hsuffix : CodePoint.char '/' ∉ suffix) (hpackaged : ArePackaged fragments)
    (hreached : UnitWriter.Reached directory suffix session.units openings) :
    Advances directory suffix openings (onUnits (UnitWriter.write source fragments)) session
      world := by
  constructor
  · intro written session' world' hends
    obtain ⟨units, hwrite, rfl⟩ := ends_within.mp hends
    refine ⟨_, fun opening ho => ?_, hreached.ends hpackaged hwrite⟩
    obtain ⟨key, -, rfl⟩ := List.mem_map.mp ho
    rfl
  · intro fault session' world' hfails
    obtain ⟨units, hwrite, rfl⟩ := fails_within.mp hfails
    obtain ⟨opened, hreached'⟩ := hreached.of_fails hsuffix hpackaged hwrite
    refine ⟨⟨_, hreached'⟩, ?_⟩
    rintro path rfl
    exact ((hreached.inStep hsuffix).broken_of_alreadyCreated hd hsuffix hpackaged hwrite).2

/-- The tests of a file are packaged like its functions. -/
theorem arePackaged_of_ends {audited : Bool} {file : SourceFile} {selection : Selection}
    {fragments : List Fragment} {middle : Session} {between : World}
    (hfile : ∀ function ∈ file.functions, function.package.IsPackage)
    (hselect : Ends (select table audited file) session world selection middle between)
    (hsynthesize : Ends (synthesizeAll table selection.eligible) middle between fragments session'
      world') : ArePackaged fragments := by
  obtain ⟨hfragments, -⟩ := ends_synthesizeAll hsynthesize
  intro fragment hm
  have hsome : some fragment ∈ selection.eligible.map (Synthesis.fragment? table middle.config) :=
    hfragments ▸ List.mem_map_of_mem hm
  obtain ⟨eligible, he, hfragment⟩ := List.mem_map.mp hsome
  rw [Synthesis.eq_of_fragment? hfragment]
  exact hfile _ (mem_of_ends_selectFrom hselect eligible he)

theorem advances_scanFile {file : SourceFile} (hd : directory.IsRead)
    (hsuffix : CodePoint.char '/' ∉ suffix)
    (hfile : ∀ function ∈ file.functions, function.package.IsPackage)
    (hreached : UnitWriter.Reached directory suffix session.units openings) :
    Advances directory suffix openings (scanFile table file) session world := by
  refine .bind (.of_proceeds stays_selectFrom hreached) ?_
  intro selection middle between more hselect hreached
  refine .bind (.of_proceeds stays_synthesizeAll hreached) ?_
  intro fragments later after more hsynthesize hreached
  refine .bind (advances_write hd hsuffix (arePackaged_of_ends hfile hselect hsynthesize)
    hreached) ?_
  intro written last final more _ hreached
  exact advances_pure hreached

theorem advances_scanFiles {files : List SourceFile} (hd : directory.IsRead)
    (hsuffix : CodePoint.char '/' ∉ suffix)
    (hfiles : ∀ file ∈ files, ∀ function ∈ file.functions, function.package.IsPackage)
    (hreached : UnitWriter.Reached directory suffix session.units openings) :
    Advances directory suffix openings (scanFiles table files) session world := by
  induction files generalizing session world openings with
  | nil => exact advances_pure hreached
  | cons file files ih =>
    obtain ⟨hfile, hrest⟩ := List.forall_mem_cons.mp hfiles
    refine .bind (.of_stays (stays_accepts (by simp [IsNew])) hreached) ?_
    intro accepted middle between more _ hreached
    split
    · refine .bind (advances_scanFile hd hsuffix hfile hreached) ?_
      intro deferred later after more _ hreached
      refine .bind (ih hrest hreached) ?_
      intro found last final more _ hreached
      exact advances_pure hreached
    · exact ih hrest hreached

end Session

/-- All functions of the source files are in packages that are directories. -/
def SymbolTable.IsPackaged (table : SymbolTable) : Prop :=
  ∀ file ∈ table.files, ∀ function ∈ file.functions, function.package.IsPackage

theorem SymbolTable.sublist_of_newFiles? {table : SymbolTable} {files : List SourceFile}
    (h : table.newFiles? = some files) : files.Sublist table.files := by
  simp only [newFiles?] at h
  split at h
  · obtain rfl := Option.some.inj h
    exact .refl _
  · obtain ⟨-, rfl⟩ := by simpa only [Option.ite_none_right_eq_some, Option.some.injEq] using h
    exact List.filter_sublist

theorem SymbolTable.mem_of_newFiles? {table : SymbolTable} {files : List SourceFile}
    (h : table.newFiles? = some files) {file : SourceFile} (hm : file ∈ files) :
    file ∈ table.files :=
  (sublist_of_newFiles? h).subset hm

namespace Session

variable {table : SymbolTable} {config : Config} {session session' : Session}
  {directory : Path} {suffix : Text} {openings : List Opening}

theorem advances_round (hd : directory.IsRead) (hsuffix : CodePoint.char '/' ∉ suffix)
    (htable : table.IsPackaged)
    (hreached : UnitWriter.Reached directory suffix session.units openings) :
    Advances directory suffix openings (round table) session world := by
  have hstart : Stays (Spared units) IsNew (start (m := StateM World) table) := by
    refine stays_start.mono (fun _ _ h => h.units_eq) ?_
    rintro fault rfl path
    simp
  refine .bind (.of_stays hstart hreached) ?_
  intro _ _ _ _ _ hreached
  refine .bind (.of_stays (stays_ofOption (by simp [IsNew])) hreached) ?_
  intro files _ _ _ hfiles hreached
  obtain ⟨hfiles, -, -⟩ := ends_ofOption.mp hfiles
  refine .bind (advances_scanFiles hd hsuffix (fun file hm => htable file
    (SymbolTable.mem_of_newFiles? hfiles hm)) hreached) ?_
  intro found _ _ _ _ hreached
  have hflush : Stays (Spared units) IsNew (do
      let _ ← onReport (ReportWriter.flush (m := StateM World))
      Task.notify (.roundDone found.1 (← get).units.written.length found.2.length)
      return found.2) :=
    stays_bind (stays_within ReportWriter.stays_flush fun _ _ _ => rfl) fun _ =>
      stays_bind stays_get fun _ => stays_bind stays_notify fun _ => stays_pure
  exact .of_stays hflush hreached

/-- What a session can come to by rounds, of which some may have failed. -/
inductive Reached (config : Config) (directory : Path) : Session → Prop
  | fresh : Reached config directory (fresh directory config)
  | ends {session session' : Session} {table : SymbolTable} {world world' : World}
      {deferred : List FunctionDecl} : Reached config directory session → table.IsPackaged →
      Ends (round table) session world deferred session' world' → Reached config directory session'
  | fails {session session' : Session} {table : SymbolTable} {world world' : World}
      {fault : Fault} : Reached config directory session → table.IsPackaged →
      Fails (round table) session world fault session' world' → Reached config directory session'

theorem Reached.units (hd : directory.IsRead) (hsuffix : CodePoint.char '/' ∉ config.suffix)
    (h : Reached config directory session) :
    ∃ openings, UnitWriter.Reached directory config.suffix session.units openings := by
  induction h with
  | fresh => exact ⟨[], .make⟩
  | ends _ htable hround ih =>
    obtain ⟨openings, hreached⟩ := ih
    obtain ⟨more, -, hreached⟩ := (advances_round hd hsuffix htable hreached).ends hround
    exact ⟨_, hreached⟩
  | fails _ htable hround ih =>
    obtain ⟨openings, hreached⟩ := ih
    obtain ⟨⟨more, hreached⟩, -⟩ := (advances_round hd hsuffix htable hreached).fails hround
    exact ⟨_, hreached⟩

/-- In all rounds of a session, be it that some of them fail, units are written once: the
writer of the session goes from unit to unit, and opens each of them once. A round asks for a
path again only where a unit had broken off before the round. -/
theorem units_written_once (output : Text) (config : Config)
    (hsuffix : CodePoint.char '/' ∉ config.suffix) :
    (∀ session, Reached config (Path.parse output) session → ∃ openings,
      UnitWriter.Reached (Path.parse output) config.suffix session.units openings ∧
      ∀ table, table.IsPackaged → ∀ world path session' world',
        Fails (round table) session world (.alreadyCreated path) session' world' →
        ∃ opening ∈ openings, opening.whole = false ∧
          path = (opening.output (Path.parse output)).path.toText) ∧
    ∀ writer openings,
      UnitWriter.Reached (Path.parse output) config.suffix writer openings →
      writer.WritesOnce (Path.parse output) openings := by
  have hd := Path.isRead_parse output
  refine ⟨fun session hsession => ?_, fun writer openings hwriter => ?_⟩
  · obtain ⟨openings, hreached⟩ := hsession.units hd hsuffix
    refine ⟨openings, hreached, fun table htable world path session' world' hfails => ?_⟩
    exact ((advances_round hd hsuffix htable hreached).fails hfails).2 path rfl
  · exact (hwriter.inStep hsuffix).writesOnce hd hsuffix

theorem cards_isPackaged : cards.IsPackaged := by
  intro file hfile function hfunction _
  obtain rfl := List.mem_singleton.mp hfile
  have happ : function.package = .string "app" := by
    simp only [SourceFile.functions, previewed, Declaration.function?, List.filterMap_cons,
      List.filterMap_nil, List.mem_cons, List.not_mem_nil, or_false] at hfunction
    rcases hfunction with rfl | rfl | rfl <;> rfl
  exact ⟨"app", happ, by decide⟩

/-- A round that writes one unit. -/
theorem cards_written_once :
    CodePoint.char '/' ∉ ({ preview := .string "Preview" } : Config).suffix ∧
    ∃ session openings, Reached { preview := .string "Preview" } (Path.parse "out") session ∧
      session.units.written = ["app.CardsScreenshotTest"] ∧
      session.units.WritesOnce (Path.parse "out") openings := by
  have hsuffix : CodePoint.char '/' ∉ ({ preview := .string "Preview" } : Config).suffix := by
    decide
  obtain ⟨deferred, after, world', h, hwritten⟩ := exists_ends_of (round cards)
    (fresh (Path.parse "out") { preview := .string "Preview" }) (.ofFiles .empty)
    (fun _ after _ => after.units.written == ["app.CardsScreenshotTest"]) (by decide +kernel)
  have hreached := Reached.fresh.ends cards_isPackaged h
  have honce := units_written_once "out" { preview := .string "Preview" } hsuffix
  obtain ⟨openings, hunits, -⟩ := honce.1 after hreached
  exact ⟨hsuffix, after, openings, hreached, by simpa using hwritten, honce.2 _ _ hunits⟩

/-- One file with one test. -/
def cardOf (path name : Text) : SymbolTable :=
  ⟨[⟨.string path, .string "app", .kotlin, [previewed name .isPublic none]⟩], [], none⟩

/-- What is not so of all units: one that breaks off in a round is an output without a name,
and stops the next round; and one whose name is no text, but stands for the bytes of another
name, is written over the unit of that name. -/
theorem units_lost :
    let before := fresh (Path.parse "out") { preview := .string "Preview" }
    let breaking : World := .ofFiles { FileTree.empty with breaks? := fun _ _ => some 0 }
    let bytes : Text := [.unit 0x4c3, .unit 0x4a9]
    let path := Path.parse "out/app/éScreenshotTest.kt"
    (∃ stopped halfway, Fails (round cards) before breaking .fileSystem stopped halfway ∧
      stopped.units.written = [] ∧ stopped.units.outputs.created.length = 1 ∧
      ∃ taken again left, Fails (round cards) stopped halfway (.alreadyCreated taken) again left) ∧
    ∃ deferred first between,
      Ends (round (cardOf "é.kt" "Card")) before (.ofFiles .empty) deferred first between ∧
      first.units.written = ["app.éScreenshotTest"] ∧ between.files.read? path ≠ none ∧
      ∃ deferred second after,
        Ends (round (cardOf (bytes ++ ".kt") "Other")) first between deferred second after ∧
        after.files.read? path ≠ between.files.read? path := by
  intro before breaking bytes path
  constructor
  · obtain ⟨fault, stopped, halfway, hstopped, hchecked⟩ :=
      exists_fails_of (round cards) before breaking
        (fun fault stopped halfway => fault.isFileSystem &&
          stopped.units.written.isEmpty && stopped.units.outputs.created.length == 1 &&
          failsWith (round cards) stopped halfway fun fault _ _ => fault.isAlreadyCreated)
        (by decide +kernel)
    simp only [Bool.and_eq_true] at hchecked
    obtain ⟨⟨⟨hfault, hwritten⟩, hcreated⟩, hnext⟩ := hchecked
    obtain rfl := Fault.eq_of_isFileSystem hfault
    obtain ⟨fault, again, left, hagain, hfault⟩ := exists_fails_of _ _ _ _ hnext
    obtain ⟨taken, rfl⟩ := Fault.exists_of_isAlreadyCreated hfault
    exact ⟨stopped, halfway, hstopped, by simpa using hwritten, by simpa using hcreated,
      taken, again, left, hagain⟩
  · obtain ⟨deferred, first, between, hfirst, hchecked⟩ :=
      exists_ends_of (round (cardOf "é.kt" "Card")) before (.ofFiles .empty)
        (fun _ first between =>
          first.units.written == ["app.éScreenshotTest"] && (between.files.read? path).isSome &&
          endsWith (round (cardOf (bytes ++ ".kt") "Other")) first between fun _ _ after =>
            decide (after.files.read? path ≠ between.files.read? path))
        (by decide +kernel)
    simp only [Bool.and_eq_true] at hchecked
    obtain ⟨⟨hwritten, hread⟩, hnext⟩ := hchecked
    obtain ⟨later, second, after, hsecond, hlost⟩ := exists_ends_of _ _ _ _ hnext
    exact ⟨deferred, first, between, hfirst, by simpa using hwritten,
      Option.isSome_iff_ne_none.mp hread, later, second, after, hsecond, of_decide_eq_true hlost⟩

end Session

end PreviewShots
