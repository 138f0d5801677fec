import PreviewShots.Proofs.Session
import PreviewShots.Proofs.TestFile

/-!
# Several rounds

The rounds of one session follow one another, each by its plan (`ends_round`). A function
that was deferred is offered again in a later round, and its test is in the unit of its file
then (`eligible_shown`), unless the run has a unit of that name by now: a name is taken once
in a run, also by a unit without the test (`later_lost`).
-/

open PreviewShots.Task

namespace PreviewShots

/-- The file at the path is a text that holds the part. -/
def FileTree.Shows (tree : FileTree) (path : Path) (part : Text) : Prop :=
  ∃ (text : Text) (bytes : ByteArray), text.utf8? = some bytes ∧ tree.read? path = some bytes ∧
    part <:+: text

namespace Round

variable {r : Round} {file : SourceFile} {function : FunctionDecl} {fragment : Fragment}

-- ---------------------------------------------------------------------------
-- Tests of eligible functions
-- ---------------------------------------------------------------------------

theorem mem_eligibleOf (hf : function ∈ file.functions) (he : r.IsEligible function) :
    ⟨file, function, r.marks function.annotations⟩ ∈ r.eligibleOf file file.functions := by
  refine List.mem_map.mpr ⟨function, List.mem_filter.mpr ⟨hf, ?_⟩, rfl⟩
  simpa using he

theorem eligibleOf_eq_map {functions : List FunctionDecl} (file : SourceFile)
    (he : ∀ f ∈ functions, r.IsEligible f)
    (hm : ∀ f ∈ functions, ∀ a ∈ f.annotations, r.IsMark a) :
    r.eligibleOf file functions = functions.map fun f => ⟨file, f, f.annotations⟩ := by
  rw [eligibleOf, List.filter_eq_self.mpr (by simpa using he)]
  refine List.map_congr_left fun f hf => ?_
  rw [marks, List.filter_eq_self.mpr (by simpa using hm f hf)]

theorem mem_deferred {files : List SourceFile} (hm : file ∈ files)
    (hf : function ∈ file.functions) (hd : r.IsDeferred function) : function ∈ r.deferred files :=
  List.mem_flatMap.mpr ⟨file, hm, List.mem_filter.mpr ⟨hf, by simpa using hd⟩⟩

theorem violations_eq_nil {files : List SourceFile}
    (h : ∀ file ∈ files, ∀ function ∈ file.functions, function.isPrivate = false) :
    r.violations files = [] := by
  refine List.flatMap_eq_nil_iff.mpr fun file hm => ?_
  rw [violationsOf, List.map_eq_nil_iff, List.filter_eq_nil_iff]
  intro function hf hv
  obtain ⟨-, -, hprivate⟩ : r.IsViolation function := by simpa using hv
  rw [h file hm function hf] at hprivate
  cases hprivate

/-- A file has a unit if one of its functions is eligible. -/
theorem exists_unitKey?_iff :
    (∃ key, r.unitKey? file = some key) ↔ ∃ function ∈ file.functions, r.IsEligible function := by
  constructor
  · rintro ⟨key, h⟩
    obtain ⟨first, hfirst, -⟩ := Option.map_eq_some_iff.mp h
    obtain ⟨function, hf, -⟩ := List.mem_map.mp (List.mem_of_head? hfirst)
    exact ⟨function, List.mem_of_mem_filter hf, by simpa using (List.mem_filter.mp hf).2⟩
  · rintro ⟨function, hf, he⟩
    have hm := mem_eligibleOf hf he
    cases hes : r.eligibleOf file file.functions with
    | nil => simp [hes] at hm
    | cons first rest => exact ⟨_, by rw [unitKey?, hes]; rfl⟩

theorem qualifiedName_ne_of_later {taken : List Text} {files : List SourceFile}
    {earlier later : List (UnitKey × SourceFile)} {source other : UnitKey × SourceFile}
    (h : r.sources taken files = earlier ++ source :: later) (hm : other ∈ later) :
    other.1.qualifiedName ≠ source.1.qualifiedName := by
  intro he
  have hnodup := r.nodup_sources taken files
  rw [h, List.map_append, List.map_cons] at hnodup
  have hnotin := (List.nodup_cons.mp (List.nodup_append.mp hnodup).2.1).1
  exact hnotin (he ▸ List.mem_map_of_mem hm)

theorem infix_unitText (key : UnitKey) (h : fragment ∈ r.fragments file) :
    fragment.render (TestFile.qualified (r.fragments file)) <:+: r.unitText key file :=
  TestFile.infix_written _ _ (List.mem_map_of_mem h)

-- ---------------------------------------------------------------------------
-- What a round leaves behind
-- ---------------------------------------------------------------------------

/-- What a round of a session with the files leaves behind. -/
structure Held (r : Round) (directory : Path) (files : List SourceFile) (before after : Session)
    (world world' : World) (deferred : List FunctionDecl) : Prop where
  deferred_eq : deferred = r.deferred files
  written : after.units.written = before.units.written ++
    (r.sources before.units.written files).map (·.1.qualifiedName)
  created : after.units.outputs.created = before.units.outputs.created ++
    (r.sources before.units.written files).map (Plan.output directory)
  distinct : (before.units.outputs.created.map (·.path.toText)).Nodup →
    (after.units.outputs.created.map (·.path.toText)).Nodup
  warned : world'.warned = world.warned ++ (r.violations files).map (·.record)
  placed : ∃ units, (r.sources before.units.written files).foldlM (r.placeUnit? directory)
      world.files = some units ∧
    Plan.placeReport? (Path.parse r.config.reportPath) (r.violations files) units =
      some world'.files ∧
    (r.violations files ≠ [] → (Plan.reportText units (Path.parse r.config.reportPath)
      (r.violations files)).isEncodable = true)
  encodable : ∀ source ∈ r.sources before.units.written files,
    (r.unitText source.1 source.2).isEncodable = true
  tested : ∀ eligible ∈ r.eligible files,
    (Synthesis.fragment? r.table r.config eligible).isSome

/-- No other unit of the round comes to the place of the unit, and no report does. -/
structure IsApart (r : Round) (directory : Path) (taken : List Text) (files : List SourceFile)
    (tree : FileTree) (key : UnitKey) : Prop where
  units : ∀ source ∈ r.sources taken files, source.1.qualifiedName ≠ key.qualifiedName →
    ¬ tree.Meet (Plan.unitPath directory source.1) (Plan.unitPath directory key)
  report : r.violations files ≠ [] →
    ¬ tree.Meet (Path.parse r.config.reportPath) (Plan.unitPath directory key)

/-- The unit of a file that is alone in its round, and has no private function. -/
theorem isApart_of_alone (directory : Path) (taken : List Text) (tree : FileTree) {key : UnitKey}
    (hkey : r.unitKey? file = some key)
    (hpublic : ∀ function ∈ file.functions, function.isPrivate = false) :
    r.IsApart directory taken [file] tree key := by
  refine ⟨fun source hs hne => ?_, fun h => absurd (violations_eq_nil (by simpa using hpublic)) h⟩
  -- any unit of the round is of the file, so it is the one
  have hfile := (r.sources_sublist taken [file]).subset (List.mem_map_of_mem hs)
  have hkey' := (firstOf?_sources hs).1
  rw [List.mem_singleton.mp hfile, hkey] at hkey'
  exact absurd (congrArg UnitKey.qualifiedName (Option.some.inj hkey').symm) hne

variable {directory : Path} {files : List SourceFile} {before after : Session}
  {world world' : World} {deferred : List FunctionDecl}

/-- The names that have a unit after the round are those that had one, and those of its files. -/
theorem Held.mem_written (h : Held r directory files before after world world' deferred)
    {name : Text} : name ∈ after.units.written ↔ name ∈ before.units.written ∨
      ∃ file ∈ files, ∃ key, r.unitKey? file = some key ∧ key.qualifiedName = name := by
  rw [h.written]
  constructor
  · intro hm
    rcases List.mem_append.mp hm with hm | hm
    · exact .inl hm
    · obtain ⟨source, hs, rfl⟩ := List.mem_map.mp hm
      have hfile := (r.sources_sublist before.units.written files).subset (List.mem_map_of_mem hs)
      exact .inr ⟨source.2, hfile, source.1, (firstOf?_sources hs).1, rfl⟩
  · rintro (hm | ⟨file, hfile, key, hkey, rfl⟩)
    · exact List.mem_append_left _ hm
    · exact taken_or_source _ hfile hkey

theorem Held.exists_fragment (h : Held r directory files before after world world' deferred)
    (hm : file ∈ files) (hf : function ∈ file.functions) (he : r.IsEligible function) :
    ∃ fragment ∈ r.fragments file, Synthesis.fragment? r.table r.config
      ⟨file, function, r.marks function.annotations⟩ = some fragment := by
  have hmem := mem_eligibleOf hf he
  obtain ⟨fragment, hfragment⟩ := Option.isSome_iff_exists.mp
    (h.tested _ (List.mem_flatMap.mpr ⟨file, hm, hmem⟩))
  exact ⟨fragment, List.mem_filterMap.mpr ⟨_, hmem, hfragment⟩, hfragment⟩

/-- At the end of a round a unit that it wrote reads as it was written. -/
theorem Held.read?_unit (h : Held r directory files before after world world' deferred)
    {key : UnitKey} (hs : (key, file) ∈ r.sources before.units.written files)
    (hapart : r.IsApart directory before.units.written files world'.files key) :
    ∃ bytes, (r.unitText key file).utf8? = some bytes ∧
      world'.files.read? (Plan.unitPath directory key) = some bytes := by
  obtain ⟨bytes, hbytes⟩ := Text.exists_utf8?_of_isEncodable (h.encodable _ hs)
  refine ⟨bytes, hbytes, ?_⟩
  obtain ⟨units, hunits, hreport, -⟩ := h.placed
  refine Plan.read?_other_placeReport? hreport ?_ hapart.report
  -- the unit is in place right after it was written, and the later ones come elsewhere
  obtain ⟨earlier, later, hsplit⟩ := List.append_of_mem hs
  rw [hsplit, List.foldlM_append] at hunits
  obtain ⟨_, -, hunits⟩ := Option.bind_eq_some_iff.mp hunits
  obtain ⟨_, hplace, hrest⟩ := Option.bind_eq_some_iff.mp hunits
  have hread := FileTree.read?_place? hplace
  rw [hbytes] at hread
  refine FileTree.read?_of_foldlM hrest hread fun source hm hmeet => ?_
  have hmem : source ∈ r.sources before.units.written files :=
    hsplit ▸ List.mem_append_right _ (List.mem_cons_of_mem _ hm)
  exact hapart.units source hmem (qualifiedName_ne_of_later hsplit hm)
    ((Plan.grows_placeReport? hreport).meet hmeet)

/-- So it holds the tests of its file. -/
theorem Held.shows (h : Held r directory files before after world world' deferred)
    {key : UnitKey} (hs : (key, file) ∈ r.sources before.units.written files)
    (hf : fragment ∈ r.fragments file)
    (hapart : r.IsApart directory before.units.written files world'.files key) :
    world'.files.Shows (Plan.unitPath directory key)
      (fragment.render (TestFile.qualified (r.fragments file))) :=
  let ⟨bytes, hbytes, hread⟩ := h.read?_unit hs hapart
  ⟨r.unitText key file, bytes, hbytes, hread, infix_unitText key hf⟩

end Round

namespace Session

variable {config : Config} {directory : Path} {table : SymbolTable} {session session' : Session}
  {world world' : World} {deferred : List FunctionDecl}

section

variable {m : Type → Type} [Monad m] [Host m]

/-- One round after the other, and what each of them deferred. -/
def rounds : List SymbolTable → Task m Session (List (List FunctionDecl))
  | [] => return []
  | table :: tables => do
    let deferred ← round table
    return deferred :: (← rounds tables)

end

/-- The round that the session would hold with the table: its markers are the names that
lead to one by the verdicts right after the seed. -/
def roundOf (table : SymbolTable) (session : Session) (world : World) : Round :=
  let seeded := (Marker.Stage.mk [] session.classifier world).next (.begins table)
  ⟨table, session.config, Marker.Finds table seeded.registry⟩

/-- A session between its rounds. -/
structure IsIdle (config : Config) (directory : Path) (session : Session) : Prop where
  config_eq : session.config = config
  suffix : session.units.suffix = config.suffix
  directory_eq : session.units.outputs.directory = directory
  report_eq : session.report = .ofPath config.reportPath
  wellFormed : session.classifier.registry.WellFormed
  base_eq : session.classifier.registry.base = config.preview
  base_known : session.classifier.registry.lookup config.preview = some true

theorem isIdle_fresh (directory : Path) (config : Config) :
    IsIdle config directory (fresh directory config) :=
  ⟨rfl, rfl, rfl, rfl, .ofBase config.preview, rfl,
    by simp [fresh, Classifier.ofBase, MarkerRegistry.lookup_ofBase]⟩

theorem IsIdle.roundOf_config (hi : IsIdle config directory session) :
    (session.roundOf table world).config = config :=
  hi.config_eq

theorem IsIdle.marker_base (hi : IsIdle config directory session) (table : SymbolTable)
    (world : World) : (session.roundOf table world).marker config.preview.key := by
  let stage : Marker.Stage := ⟨[], session.classifier, world⟩
  have hw : stage.registry.WellFormed := hi.wellFormed
  have hknown : (stage.next (.begins table)).registry.lookup config.preview = some true := by
    rcases Marker.Stage.begins hw table with hs | ⟨heq, -⟩
    · exact (hs.isTrue_iff _).mpr (.inl hi.base_known)
    · exact heq ▸ hi.base_known
  exact .known hknown

/-- A round that ends is held by its plan, and leaves the session ready for another one. -/
theorem ends_round (hi : IsIdle config directory session)
    (h : Ends (round table) session world deferred session' world') :
    IsIdle config directory session' ∧ ∃ files, table.newFiles? = some files ∧
      (session.roundOf table world).Held directory (Plan.accepted config files) session session'
        world world' deferred := by
  -- a seed, a scan, a flush and a notice, of which only the scan writes units
  simp only [round, onReport, ends_bind, ends_ofOption, ends_within, ends_notify, ends_pure,
    ends_get] at h
  obtain ⟨_, _, _, hstart, files, _, world, ⟨hfiles, rfl, rfl⟩, found, scanned, _, hscan,
    _, _, _, ⟨report, hflush, rfl⟩, _, _, _, ⟨rfl, rfl, rfl⟩, _, _, _, ⟨rfl, rfl⟩,
    rfl, rfl, rfl⟩ := h
  obtain ⟨rfl, classifier, hseeded, hregistry, rfl⟩ := ends_seed hi.wellFormed hstart
  obtain ⟨rfl, hsuffix, rfl, hreport, -, hbase, hknown⟩ := hi
  have hserved : (session.roundOf table world).IsServed { session with classifier } := by
    refine ⟨rfl, hsuffix, fun key => ?_⟩
    rw [← hregistry]
    rfl
  obtain ⟨hdeferred, hscanned⟩ := Round.ends_scanFiles hserved hscan
  obtain ⟨rfl, hwarned, hplaced⟩ := ReportWriter.ends_flush hflush
  have hreadable := ReportWriter.isEncodable_of_ends_flush hflush
  have hpending : scanned.report = ⟨Path.parse session.config.reportPath,
      (session.roundOf table world).violations (Plan.accepted session.config files)⟩ := by
    rw [hscanned.report, hreport]
    rfl
  rw [hpending] at hplaced hreadable
  refine ⟨⟨hscanned.config_eq, hscanned.suffix.trans hsuffix, hscanned.directory_eq, ?_,
    hscanned.settles.wellFormed hseeded.wellFormed,
    hscanned.settles.base.trans (hseeded.base.trans hbase),
    hscanned.settles.kept _ _ ((hseeded.isTrue_iff _).mpr (.inl hknown))⟩, files, hfiles,
    hdeferred, hscanned.written, hscanned.created, hscanned.distinct, ?_,
    ⟨_, hscanned.placed, hplaced, hreadable⟩,
    hscanned.encodable, hscanned.tested⟩
  · simp only [hpending]
    rfl
  · refine Eq.trans ?_ (hwarned.trans hscanned.warned)
    simp [World.warned, Notice.record?]

/-- The first round of a session finds the markers of its table. -/
theorem roundOf_fresh {u : Unit}
    (h : Ends (start table) (fresh directory config) world u session' world') :
    (fresh directory config).roundOf table world = .first table config := by
  obtain ⟨-, classifier, hseeded, hregistry, -⟩ := ends_seed (.ofBase config.preview) h
  have hmarker : Marker.Finds table classifier.registry = Marker.IsMarker table config.preview :=
    funext fun key => propext (Marker.knows_of_seeded hseeded key)
  rw [Round.first, ← hmarker, ← hregistry]
  rfl

theorem ends_first_round
    (h : Ends (round table) (fresh directory config) world deferred session' world') :
    ∃ files, table.newFiles? = some files ∧ (Round.first table config).Held directory
      (Plan.accepted config files) (fresh directory config) session' world world' deferred := by
  obtain ⟨_, _, _, hstart, -⟩ := ends_bind.mp h
  obtain ⟨-, files, hfiles, hheld⟩ := ends_round (isIdle_fresh directory config) h
  exact ⟨files, hfiles, roundOf_fresh hstart ▸ hheld⟩

/-- One of the rounds has a file with a unit of the name. -/
def IsTaken (config : Config) : List SymbolTable → Session → World → Text → Prop
  | [], _, _, _ => False
  | table :: tables, session, world, name =>
    (∃ files, table.newFiles? = some files ∧ ∃ file ∈ Plan.accepted config files, ∃ key,
      (session.roundOf table world).unitKey? file = some key ∧ key.qualifiedName = name) ∨
    ∃ deferred next between, Ends (round table) session world deferred next between ∧
      IsTaken config tables next between name

theorem ends_rounds_cons {tables : List SymbolTable} {deferrals : List (List FunctionDecl)} :
    Ends (rounds (table :: tables)) session world deferrals session' world' ↔
      ∃ deferred next between, Ends (round table) session world deferred next between ∧
        ∃ later, Ends (rounds tables) next between later session' world' ∧
          deferrals = deferred :: later := by
  simp only [rounds, ends_bind, ends_pure]
  constructor
  · rintro ⟨deferred, next, between, hround, later, _, _, hrest, rfl, rfl, rfl⟩
    exact ⟨deferred, next, between, hround, later, hrest, rfl⟩
  · rintro ⟨deferred, next, between, hround, later, hrest, rfl⟩
    exact ⟨deferred, next, between, hround, later, _, _, hrest, rfl, rfl, rfl⟩

theorem ends_rounds {tables : List SymbolTable} {deferrals : List (List FunctionDecl)}
    (hi : IsIdle config directory session)
    (h : Ends (rounds tables) session world deferrals session' world') :
    IsIdle config directory session' ∧ ∀ name, name ∈ session'.units.written ↔
      name ∈ session.units.written ∨ IsTaken config tables session world name := by
  induction tables generalizing session world deferrals with
  | nil =>
    obtain ⟨rfl, rfl, rfl⟩ := ends_pure.mp h
    exact ⟨hi, fun name => by simp [IsTaken]⟩
  | cons table tables ih =>
    obtain ⟨deferred, next, between, hround, later, hrest, rfl⟩ := ends_rounds_cons.mp h
    obtain ⟨hidle, files, hfiles, hheld⟩ := ends_round hi hround
    obtain ⟨hidle', hwritten⟩ := ih hidle hrest
    refine ⟨hidle', fun name => ?_⟩
    rw [hwritten, hheld.mem_written, or_assoc]
    -- a name is taken by this round or, since rounds end in one way, by one of the later ones
    refine or_congr_right (or_congr ?_ ?_)
    · simp [hfiles]
    · constructor
      · exact fun htaken => ⟨_, _, _, hround, htaken⟩
      · rintro ⟨_, _, _, hother, htaken⟩
        obtain ⟨-, rfl, rfl⟩ := hround.unique hother
        exact htaken

theorem ends_rounds_pair {first second : SymbolTable} {deferrals : List (List FunctionDecl)}
    (h : Ends (rounds [first, second]) session world deferrals session' world') :
    ∃ deferred next between rest, Ends (rounds [first]) session world [deferred] next between ∧
      Ends (round first) session world deferred next between ∧
        Ends (round second) next between rest session' world' := by
  obtain ⟨deferred, next, between, hfirst, _, hlater, rfl⟩ := ends_rounds_cons.mp h
  obtain ⟨rest, _, _, hsecond, _, hnone, rfl⟩ := ends_rounds_cons.mp hlater
  obtain ⟨rfl, rfl, rfl⟩ := ends_pure.mp hnone
  refine ⟨deferred, next, between, rest, ends_rounds_cons.mpr ?_, hfirst, hsecond⟩
  exact ⟨_, _, _, hfirst, [], ends_pure.mpr ⟨rfl, rfl, rfl⟩, rfl⟩

-- ---------------------------------------------------------------------------
-- A file that is offered twice
-- ---------------------------------------------------------------------------

/-- An annotation that names the base marker is a mark in every round. -/
theorem IsIdle.isMark {a : Annotation} (hi : IsIdle config directory session)
    (ht : a.typeName.isTruthy) (hs : a.typeName.isScalar)
    (hk : a.typeName.key = config.preview.key) : (session.roundOf table world).IsMark a := by
  obtain ⟨decl, hr⟩ : ∃ decl, table.resolveName a.typeName = some decl :=
    SymbolTable.exists_resolveName ht hs
  have hbase := hi.marker_base table world
  rw [← hk, ← SymbolTable.resolveName_key hr] at hbase
  exact ⟨decl, hr, hbase⟩

/-- A function with the base marker, in a package of its own. -/
def offered (name : Text) (returns : Option TypeRef) : FunctionDecl :=
  ⟨.string name, .string "app", .isPublic, [.ofName "Preview"], [], returns, .kotlin, true,
    .string "Cards.kt"⟩

def cardsFile (functions : List FunctionDecl) : SourceFile :=
  ⟨.string "Cards.kt", .string "app", .kotlin, functions.map .function⟩

@[simp] theorem functions_cardsFile (functions : List FunctionDecl) :
    (cardsFile functions).functions = functions := by
  simp [cardsFile, SourceFile.functions, Declaration.function?]

/-- The table of one file with the functions. -/
def offering (functions : List FunctionDecl) : SymbolTable :=
  ⟨[cardsFile functions], [], none⟩

theorem accepted_offering (functions : List FunctionDecl) :
    Plan.accepted { preview := .string "Preview" } (offering functions).files =
      [cardsFile functions] := by
  have haccepted : Plan.IsAccepted { preview := .string "Preview" } (cardsFile functions) :=
    ⟨rfl, "Cards.kt", rfl, by decide⟩
  simp [Plan.accepted, offering, haccepted]

section

variable (hi : IsIdle { preview := .string "Preview" } directory session) (name : Text)
  (names : List Text)

include hi

theorem IsIdle.isMark_offered (returns : Option TypeRef) :
    ∀ a ∈ (offered name returns).annotations, (session.roundOf table world).IsMark a := by
  intro a ha
  obtain rfl := List.mem_singleton.mp ha
  exact hi.isMark rfl rfl rfl

theorem IsIdle.isOffered (returns : Option TypeRef) :
    (session.roundOf table world).IsOffered (offered name returns) := by
  refine ⟨⟨_, List.mem_singleton_self _, hi.isMark_offered name returns _
    (List.mem_singleton_self _)⟩, by simp [offered], rfl, ?_⟩
  rintro ⟨a, ha, decl, hr, he⟩
  obtain rfl := List.mem_singleton.mp ha
  have hk := (SymbolTable.resolveName_key hr).symm.trans (Label.key_eq_of_equal he)
  rw [hi.roundOf_config] at hk
  exact absurd hk (by decide)

theorem IsIdle.isEligible_offered :
    (session.roundOf table world).IsEligible (offered name none) :=
  ⟨hi.isOffered name none, rfl⟩

theorem IsIdle.isDeferred_offered :
    (session.roundOf table world).IsDeferred (offered name (some .unknown)) :=
  ⟨hi.isOffered name _, rfl⟩

theorem IsIdle.mem_deferred_offering {functions : List FunctionDecl}
    (hm : offered name (some .unknown) ∈ functions)
    (h : Ends (round (offering functions)) session world deferred session' world') :
    offered name (some .unknown) ∈ deferred := by
  obtain ⟨-, _, hfiles, hheld⟩ := ends_round hi h
  obtain rfl := Option.some.inj hfiles
  rw [hheld.deferred_eq, accepted_offering]
  exact Round.mem_deferred (List.mem_singleton_self _) (by rwa [functions_cardsFile])
    (hi.isDeferred_offered name)

theorem IsIdle.eligibleOf_cardsFile :
    let functions := names.map (offered · none)
    (session.roundOf table world).eligibleOf (cardsFile functions)
      (cardsFile functions).functions = functions.map fun f =>
        ⟨cardsFile functions, f, f.annotations⟩ := by
  intro functions
  rw [functions_cardsFile]
  refine Round.eligibleOf_eq_map _ ?_ ?_
  · exact List.forall_mem_map.mpr fun name _ => hi.isEligible_offered name
  · exact List.forall_mem_map.mpr fun name _ => hi.isMark_offered name none

theorem IsIdle.unitKey?_cardsFile :
    (session.roundOf table world).unitKey? (cardsFile ((name :: names).map (offered · none))) =
      some ⟨.string "app", "CardsScreenshotTest"⟩ := by
  rw [Round.unitKey?, hi.eligibleOf_cardsFile (name :: names), hi.roundOf_config]
  rfl

theorem IsIdle.fragments_cardsFile :
    let functions := names.map (offered · none)
    (session.roundOf table world).fragments (cardsFile functions) = functions.filterMap fun f =>
      Synthesis.fragment? table { preview := .string "Preview" }
        ⟨cardsFile functions, f, f.annotations⟩ := by
  intro functions
  rw [Round.fragments, hi.eligibleOf_cardsFile names, List.filterMap_map, hi.roundOf_config]
  rfl

theorem IsIdle.marks_offered (returns : Option TypeRef) :
    (session.roundOf table world).marks (offered name returns).annotations =
      (offered name returns).annotations :=
  List.filter_eq_self.mpr (by simpa using hi.isMark_offered name returns)

end

-- ---------------------------------------------------------------------------
-- What becomes of a deferred function
-- ---------------------------------------------------------------------------

/-- A function that is eligible in a round has its test in the unit of its file at the end of
it, if the round wrote that unit. It did so unless the name of the unit was taken, in a
round before or by an earlier file of this one. -/
theorem eligible_shown {earlier : List SymbolTable} {deferrals : List (List FunctionDecl)}
    {between : World} {files : List SourceFile} {file : SourceFile} {function : FunctionDecl}
    (hearlier : Ends (rounds earlier) (fresh directory config) world deferrals session between)
    (hround : Ends (round table) session between deferred session' world')
    (hnew : table.newFiles? = some files) (hfile : file ∈ Plan.accepted config files)
    (hfunction : function ∈ file.functions)
    (heligible : (session.roundOf table between).IsEligible function) :
    let r := session.roundOf table between
    let sources := r.sources session.units.written (Plan.accepted config files)
    ∃ key fragment, r.unitKey? file = some key ∧
      Synthesis.fragment? table config ⟨file, function, r.marks function.annotations⟩ =
        some fragment ∧
      session'.units.outputs.created =
        session.units.outputs.created ++ sources.map (Plan.output directory) ∧
      ((key, file) ∈ sources ↔
        ¬ IsTaken config earlier (fresh directory config) world key.qualifiedName ∧
          r.firstOf? key.qualifiedName (Plan.accepted config files) = some file) ∧
      ((key, file) ∈ sources →
        r.IsApart directory session.units.written (Plan.accepted config files) world'.files key →
        world'.files.Shows (Plan.unitPath directory key)
          (fragment.render (TestFile.qualified (r.fragments file)))) := by
  intro r sources
  obtain ⟨hidle, hwritten⟩ := ends_rounds (isIdle_fresh directory config) hearlier
  obtain ⟨-, _, hfiles, hheld⟩ := ends_round hidle hround
  obtain rfl := Option.some.inj (hnew.symm.trans hfiles)
  obtain ⟨key, hkey⟩ := Round.exists_unitKey?_iff.mpr ⟨_, hfunction, heligible⟩
  obtain ⟨fragment, hmem, hfragment⟩ := hheld.exists_fragment hfile hfunction heligible
  have hconfig : r.config = config := hidle.roundOf_config
  refine ⟨key, fragment, hkey, hconfig ▸ hfragment, hheld.created, ?_,
    fun hs hapart => hheld.shows hs hmem hapart⟩
  have hnone : (fresh directory config).units.written = [] := rfl
  rw [Round.mem_sources_iff, hwritten, hnone]
  constructor
  · rintro ⟨-, htaken, hfirst⟩
    exact ⟨fun h => htaken (.inr h), hfirst⟩
  · rintro ⟨htaken, hfirst⟩
    exact ⟨hkey, fun h => htaken (h.resolve_left List.not_mem_nil), hfirst⟩

/-- A function whose type is unknown in the first round is deferred, and has its test after
the second one. -/
theorem later_shown :
    let config : Config := { preview := .string "Preview" }
    let directory := Path.parse "out"
    let waiting := offered "Later" (some .unknown)
    let later := offered "Later" none
    let file := cardsFile [later]
    let table := offering [later]
    ∃ deferred session between rest session' world',
      Ends (rounds [offering [waiting]]) (fresh directory config) (.ofFiles .empty) [deferred]
        session between ∧ waiting ∈ deferred ∧
      Ends (round table) session between rest session' world' ∧
      let r := session.roundOf table between
      ∃ key fragment, r.unitKey? file = some key ∧
        Synthesis.fragment? table config ⟨file, later, r.marks later.annotations⟩ =
          some fragment ∧
        world'.files.Shows (Plan.unitPath directory key)
          (fragment.render (TestFile.qualified (r.fragments file))) := by
  intro config directory waiting later file table
  obtain ⟨deferrals, session', world', hrounds⟩ := exists_ends
    (rounds [offering [waiting], table]) (fresh directory config) (.ofFiles .empty)
    (by decide +kernel)
  obtain ⟨deferred, session, between, rest, hearlier, hfirst, hsecond⟩ :=
    ends_rounds_pair hrounds
  have hfresh := isIdle_fresh directory config
  have hwaiting : waiting ∈ deferred := hfresh.mem_deferred_offering "Later" (.head _) hfirst
  have hidle := (ends_round hfresh hfirst).1
  have haccepted : Plan.accepted config table.files = [file] := accepted_offering [later]
  have hlater : later ∈ file.functions := by
    rw [functions_cardsFile]
    exact .head _
  obtain ⟨key, fragment, hk, hfragment, -, hsources, hshows⟩ := eligible_shown hearlier hsecond
    (rfl : table.newFiles? = some table.files) (haccepted ▸ .head _) hlater
    (hidle.isEligible_offered "Later")
  rw [haccepted] at hsources hshows
  refine ⟨deferred, session, between, rest, session', world', hearlier, hwaiting, hsecond, key,
    fragment, hk, hfragment, hshows (hsources.mpr ⟨?_, ?_⟩) ?_⟩
  · rintro (⟨_, hfiles, waited, hm, hkey⟩ | ⟨_, _, _, _, hnone⟩)
    -- the first round has no unit, since nothing was eligible in it
    · obtain rfl := Option.some.inj hfiles
      rw [accepted_offering] at hm
      obtain rfl := List.mem_singleton.mp hm
      obtain ⟨_, hf, -, hvalid⟩ := Round.exists_unitKey?_iff.mp ⟨_, hkey.choose_spec.1⟩
      rw [functions_cardsFile] at hf
      obtain rfl := List.mem_singleton.mp hf
      cases hvalid
    · exact hnone
  · simp [Round.firstOf?, hk]
  · refine Round.isApart_of_alone _ _ _ hk fun function hf => ?_
    rw [functions_cardsFile] at hf
    obtain rfl := List.mem_singleton.mp hf
    rfl

/-- A test that is deferred in one round is missing after the next one: the unit of its file
was written for the other function of the file. -/
theorem later_lost :
    let config : Config := { preview := .string "Preview" }
    let directory := Path.parse "out"
    let waiting := offered "Later" (some .unknown)
    let later := offered "Later" none
    let file := cardsFile [offered "Card" none, later]
    let table := offering [offered "Card" none, later]
    ∃ deferred session between rest session' world',
      Ends (rounds [offering [offered "Card" none, waiting]]) (fresh directory config)
        (.ofFiles .empty) [deferred] session between ∧ waiting ∈ deferred ∧
      Ends (round table) session between rest session' world' ∧
      table.newFiles? = some table.files ∧ file ∈ Plan.accepted config table.files ∧
      later ∈ file.functions ∧
      let r := session.roundOf table between
      r.IsEligible later ∧ ∃ key fragment, r.unitKey? file = some key ∧
        Synthesis.fragment? table config ⟨file, later, r.marks later.annotations⟩ =
          some fragment ∧
        ¬ world'.files.Shows (Plan.unitPath directory key)
          (fragment.render (TestFile.qualified (r.fragments file))) := by
  intro config directory waiting later file table
  let card := offered "Card" none
  let test (function : FunctionDecl) : Option Fragment :=
    Synthesis.fragment? table config ⟨file, function, function.annotations⟩
  let written := TestFile.render "app" (test card).toList
  obtain ⟨deferrals, session', world', hrounds⟩ := exists_ends
    (rounds [offering [card, waiting], table]) (fresh directory config) (.ofFiles .empty)
    (by decide +kernel)
  have hread : world'.files.read? (Path.parse "out/app/CardsScreenshotTest.kt") =
      written.utf8? := by
    -- bytes are compared as a list, which the kernel is quick at
    have hlist : Function.Injective fun bytes : ByteArray => bytes.data.toList :=
      fun _ _ h => ByteArray.ext (Array.ext' h)
    refine Option.map_injective hlist ?_
    rw [← show _ = world' from congrArg Prod.snd hrounds]
    decide +kernel
  obtain ⟨deferred, session, between, rest, hearlier, hfirst, hsecond⟩ :=
    ends_rounds_pair hrounds
  have hfresh := isIdle_fresh directory config
  have hwaiting : waiting ∈ deferred :=
    hfresh.mem_deferred_offering "Later" (.tail _ (.head _)) hfirst
  have hidle := (ends_round hfresh hfirst).1
  have hfragments : (session.roundOf table between).fragments file =
      [card, later].filterMap test :=
    hidle.fragments_cardsFile ["Card", "Later"]
  refine ⟨deferred, session, between, rest, session', world', hearlier, hwaiting, hsecond, rfl,
    ?_, ?_, hidle.isEligible_offered "Later", _, (test later).get (by decide +kernel),
    hidle.unitKey?_cardsFile "Card" ["Later"], ?_, ?_⟩
  · rw [accepted_offering]
    exact List.mem_singleton_self _
  · simp [file, functions_cardsFile]
  · rw [hidle.marks_offered "Later" none]
    exact (Option.some_get _).symm
  -- the unit is still the one of the first round
  · rintro ⟨text, bytes, ht, hr, hin⟩
    rw [hfragments] at hin
    obtain rfl := Text.utf8?_inj ht (hread ▸ hr)
    exact absurd hin (by decide +kernel)

end Session

end PreviewShots
