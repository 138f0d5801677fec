import PreviewShots.Proofs.Manifest
import PreviewShots.Proofs.ReportText

/-!
# Files rearranged

Where no class and no unit of the source files has the name of another one, a first round comes
to the same whatever order the files are in, and what it writes for a file does not depend on
which of the others are new (`Session.rearranged`). Units have to be apart by their places, and
not by the texts of their paths only, and the report apart from them (`Session.order_told`).
-/

open PreviewShots.Task

namespace PreviewShots

-- ---------------------------------------------------------------------------
-- Trees
-- ---------------------------------------------------------------------------

namespace FileTree

variable {α : Type} {place : α → Path} {content content' : α → ByteArray} {items items' : List α}
  {tree tree' other : FileTree}

/-- Files that are put in different places are all there in the end. -/
theorem at?_of_foldlM
    (h : items.foldlM (fun tree item => tree.place? (place item) (content item)) tree = some tree')
    (hplaces : (items.map fun item => (place item).place tree.working).Nodup) :
    ∀ item ∈ items, tree'.at? ((place item).place tree.working) = some (.file (content item)) := by
  induction items generalizing tree with
  | nil => simp
  | cons first items ih =>
    obtain ⟨between, hplace, hrest⟩ := Option.bind_eq_some_iff.mp h
    obtain ⟨hfirst, hplaces⟩ := List.nodup_cons.mp hplaces
    have hput := isPut_of_place? hplace
    rw [← hput.medium_eq] at hfirst hplaces ⊢
    intro item hm
    rcases List.mem_cons.mp hm with rfl | hm
    · have hbetween : between.at? ((place item).place between.working) =
          some (.file (content item)) := by
        simp [hput.at_eq, hput.medium_eq]
      have hfills : Fills (items.map place) between tree' := fills_of_foldlM hrest
      rcases hfills.elsewhere ((place item).place between.working) with
        heq | ⟨path, hpath, hstop | hsame⟩
      · exact heq.trans hbetween
      · obtain ⟨_, hfile⟩ := hfills.files hbetween
        rw [← hfills.medium_eq] at hstop
        simp [hfills.medium_eq ▸ (hfills.holds path hpath).stops _ hstop] at hfile
      · obtain ⟨later, hlater, rfl⟩ := List.mem_map.mp hpath
        exact absurd (List.mem_map.mpr ⟨later, hlater, hsame.symm⟩) hfirst
    · exact ih hrest hplaces item hm

/-- Files that are put in different places can be put there in any order. -/
theorem same_of_perm (hperm : items'.Perm items)
    (hplaces : (items.map fun item => (place item).place tree.working).Nodup)
    (hcontent : ∀ item ∈ items, content' item = content item)
    (h : items.foldlM (fun tree item => tree.place? (place item) (content item)) tree = some tree')
    (h' : items'.foldlM (fun tree item => tree.place? (place item) (content' item)) tree =
      some other) : Same tree' other := by
  have hplaces' : (items'.map fun item => (place item).place tree.working).Nodup :=
    (hperm.map _).nodup_iff.mpr hplaces
  have hfills : Fills (items.map place) tree tree' := fills_of_foldlM h
  have hfills' : Fills (items'.map place) tree other := fills_of_foldlM h'
  have hpaths : (items'.map place).Perm (items.map place) := hperm.map place
  refine ⟨hfills'.medium_eq.trans hfills.medium_eq.symm, fun location => ?_⟩
  by_cases hplace : ∃ item ∈ items, (place item).place tree.working = location
  · obtain ⟨item, hm, rfl⟩ := hplace
    rw [at?_of_foldlM h hplaces item hm, at?_of_foldlM h' hplaces' item (hperm.mem_iff.mpr hm),
      hcontent item hm]
  by_cases hstop : ∃ path ∈ items.map place, location ∈ path.stops tree.working
  · obtain ⟨path, hm, hstop⟩ := hstop
    rw [(hfills.holds path hm).stops location (hfills.medium_eq ▸ hstop),
      (hfills'.holds path (hpaths.mem_iff.mpr hm)).stops location (hfills'.medium_eq ▸ hstop)]
  · have hnone : ¬ ∃ path ∈ items.map place,
        location ∈ path.stops tree.working ∨ location = path.place tree.working := by
      rintro ⟨path, hm, hs | rfl⟩
      · exact hstop ⟨path, hm, hs⟩
      · obtain ⟨item, hitem, rfl⟩ := List.mem_map.mp hm
        exact hplace ⟨item, hitem, rfl⟩
    have hnone' : ¬ ∃ path ∈ items'.map place,
        location ∈ path.stops tree.working ∨ location = path.place tree.working :=
      fun ⟨path, hm, hpath⟩ => hnone ⟨path, hpaths.mem_iff.mp hm, hpath⟩
    rw [(hfills.elsewhere location).resolve_right hnone,
      (hfills'.elsewhere location).resolve_right hnone']

end FileTree

-- ---------------------------------------------------------------------------
-- Reports
-- ---------------------------------------------------------------------------

/-- Of the same violations in another order a report holds the same records. -/
theorem Plan.mem_recordsAt_of_perm {path : Path} {violations violations' : List Violation}
    {tree tree' other other' : FileTree} (hsame : FileTree.Same tree other)
    (hperm : violations'.Perm violations) (h : placeReport? path violations tree = some tree')
    (h' : placeReport? path violations' other = some other')
    (hencodable : violations ≠ [] → (reportText tree path violations).isEncodable = true)
    (hencodable' : violations' ≠ [] → (reportText other path violations').isEncodable = true)
    (line : Text) : line ∈ recordsAt other' path ↔ line ∈ recordsAt tree' path := by
  have hrecords : recordsAt other path = recordsAt tree path := by
    simp only [recordsAt, hsame.read?]
  by_cases hnil : violations = []
  · obtain rfl := hnil
    obtain rfl := hperm.eq_nil
    obtain rfl := Option.some.inj h
    obtain rfl := Option.some.inj h'
    rw [hrecords]
  have hnil' : violations' ≠ [] := fun he => hnil (he ▸ hperm).symm.eq_nil
  rw [placeReport?, if_neg (mt List.isEmpty_iff.mp hnil)] at h
  rw [placeReport?, if_neg (mt List.isEmpty_iff.mp hnil')] at h'
  rw [mem_recordsAt_place? (hencodable hnil) h, mem_recordsAt_place? (hencodable' hnil') h']
  simp only [VisibilityReport.merge, List.mem_eraseDups, List.mem_append, hrecords,
    (hperm.map (·.record.line)).mem_iff]

-- ---------------------------------------------------------------------------
-- Tables
-- ---------------------------------------------------------------------------

theorem find?_of_perm {α : Type} {test : α → Bool} {items items' : List α}
    (hperm : items'.Perm items)
    (hone : ∀ a ∈ items, ∀ b ∈ items, test a = true → test b = true → a = b) :
    items'.find? test = items.find? test := by
  cases h : items.find? test with
  | none =>
    rw [List.find?_eq_none] at h ⊢
    exact fun a ha => h a (hperm.mem_iff.mp ha)
  | some a =>
    have ha := List.mem_of_find?_eq_some h
    obtain ⟨b, hb⟩ := Option.isSome_iff_exists.mp
      (List.find?_isSome.mpr ⟨a, hperm.mem_iff.mpr ha, List.find?_some h⟩)
    rw [hb, hone b (hperm.mem_iff.mp (List.mem_of_find?_eq_some hb)) a ha (List.find?_some hb)
      (List.find?_some h)]

namespace SymbolTable

variable {table : SymbolTable} {files new new' : List SourceFile}

theorem newFiles?_of_perm (hperm : files.Perm table.files) (h : table.newFiles? = some new)
    (h' : { table with files }.newFiles? = some new') : new'.Perm new := by
  simp only [newFiles?] at h h'
  split at h
  · next hall =>
    rw [hall] at h'
    obtain rfl := Option.some.inj h
    obtain rfl := Option.some.inj h'
    exact hperm
  · next paths hpaths =>
    rw [hpaths] at h'
    simp only [Option.ite_none_right_eq_some, Option.some.injEq] at h h'
    obtain ⟨-, rfl⟩ := h
    obtain ⟨-, rfl⟩ := h'
    exact hperm.filter _

/-- No source class has the name of another one. -/
def HasDistinctClasses (table : SymbolTable) : Prop :=
  ((table.sourceClasses.filter (·.qualifiedName.isTruthy)).map (·.qualifiedName.key)).Nodup

instance (table : SymbolTable) : Decidable table.HasDistinctClasses :=
  inferInstanceAs (Decidable (List.Nodup _))

/-- With distinct names it makes no difference in which order classes are declared. -/
theorem agreeOn_of_perm (hclasses : table.HasDistinctClasses) (hperm : files.Perm table.files)
    (known : Key → Prop) : AgreeOn known table { table with files } := by
  have hsources : (files.flatMap (·.classes)).Perm table.sourceClasses := hperm.flatMap_right _
  refine ⟨fun name _ => ?_, fun decl _ => hsources.mem_iff⟩
  simp only [class?, allClasses, List.filter_append, List.reverse_append, List.find?_append]
  refine congrArg₂ Option.or (find?_of_perm ?_ fun a ha b hb hname hname' => ?_) rfl
  · exact (List.reverse_perm _).trans ((hsources.filter _).trans (List.reverse_perm _).symm)
  · rw [decide_eq_true_eq] at hname hname'
    exact List.inj_on_of_nodup_map hclasses (List.mem_reverse.mp ha) (List.mem_reverse.mp hb)
      (hname.trans hname'.symm)

/-- Which files are new is no matter of classes. -/
theorem agreeOn_of_paths (table : SymbolTable) (paths : List Label) (known : Key → Prop) :
    AgreeOn known table { table with newPaths := some paths } :=
  ⟨fun _ _ => rfl, fun _ _ => Iff.rfl⟩

/-- All files see the same of tables that agree on everything. -/
theorem AgreeOn.sees {other : SymbolTable} (h : AgreeOn (fun _ => True) table other)
    (file : SourceFile) : file.Sees (fun _ => True) table other :=
  ⟨h, fun _ _ => trivial, fun _ _ _ _ => trivial, fun _ _ _ _ _ _ =>
    Synthesis.typeName?_congr (h.resolveName_eq trivial)⟩

end SymbolTable

-- ---------------------------------------------------------------------------
-- Plans
-- ---------------------------------------------------------------------------

namespace Plan

variable {table other : SymbolTable} {config : Config} {directory : Path}
  {files : List SourceFile} {working : Location}

/-- The units that the accepted files have. -/
noncomputable def units (table : SymbolTable) (config : Config) (files : List SourceFile) :
    List UnitKey :=
  (accepted config files).filterMap (unitKey? table config)

/-- No source class has the name of another one, and no unit the name or the place. -/
structure IsDistinct (table : SymbolTable) (config : Config) (directory : Path)
    (working : Location) : Prop where
  classes : table.HasDistinctClasses
  names : ((units table config table.files).map (·.qualifiedName)).Nodup
  places : ((units table config table.files).map (unitPath directory · |>.place working)).Nodup

/-- The unit of a file, with the file. -/
noncomputable def source? (table : SymbolTable) (config : Config) (file : SourceFile) :
    Option (UnitKey × SourceFile) :=
  (unitKey? table config file).map (·, file)

/-- Of units with distinct names all are written. -/
theorem sources_of_nodup {taken : List Text}
    (hfree : ∀ key ∈ files.filterMap (unitKey? table config), key.qualifiedName ∉ taken)
    (hnames : ((files.filterMap (unitKey? table config)).map (·.qualifiedName)).Nodup) :
    sources table config taken files = files.filterMap (source? table config) := by
  induction files generalizing taken with
  | nil => rfl
  | cons file files ih =>
    cases hkey : unitKey? table config file with
    | none =>
      rw [List.filterMap_cons_none hkey] at hfree hnames
      rw [List.filterMap_cons_none (by simp [source?, hkey]), ← ih hfree hnames]
      simp [sources, hkey]
    | some key =>
      rw [List.filterMap_cons_some hkey] at hfree hnames
      obtain ⟨hfirst, hnames⟩ := List.nodup_cons.mp hnames
      rw [List.filterMap_cons_some (b := (key, file)) (by simp [source?, hkey])]
      simp only [sources, hkey, hfree key List.mem_cons_self, ↓reduceIte]
      refine congrArg _ (ih (fun other ho htaken => ?_) hnames)
      rcases List.mem_append.mp htaken with htaken | hname
      · exact hfree other (List.mem_cons_of_mem _ ho) htaken
      · exact hfirst (List.mem_map.mpr ⟨other, ho, List.mem_singleton.mp hname⟩)

theorem filterMap_source?_filter (test : SourceFile → Bool) :
    (accepted config (files.filter test)).filterMap (source? table config) =
      ((accepted config files).filterMap (source? table config)).filter (test ·.2) := by
  have hcomm : accepted config (files.filter test) = (accepted config files).filter test := by
    simp only [accepted, List.filter_filter, Bool.and_comm]
  rw [hcomm, List.filterMap_filter, List.filter_filterMap]
  congr 1
  funext file
  cases hkey : unitKey? table config file with
  | none => simp [source?, hkey]
  | some key => simp [source?, hkey, Option.filter]

theorem map_filterMap_source? (table : SymbolTable) (config : Config) (files : List SourceFile) :
    (files.filterMap (source? table config)).map (·.1) =
      files.filterMap (unitKey? table config) := by
  simp only [List.map_filterMap, source?, Option.map_map, Function.comp_def, Option.map_id']

/-- In one package the names of units are told by those of the files. -/
theorem units_sublist_of_package {package : Label}
    (h : ∀ file ∈ files, ∀ function ∈ file.functions, function.package = package) :
    (units table config files).Sublist
      (files.map fun file => ⟨package, FileName.base file.fileName ++ config.suffix⟩) := by
  refine .trans (.filterMap _ List.filter_sublist) ?_
  induction files with
  | nil => exact .slnil
  | cons file files ih =>
    obtain ⟨hfile, hfiles⟩ := List.forall_mem_cons.mp h
    cases hkey : unitKey? table config file with
    | none =>
      rw [List.filterMap_cons_none hkey]
      exact (ih hfiles).cons _
    | some key =>
      obtain ⟨first, hfirst, rfl⟩ := Option.map_eq_some_iff.mp hkey
      obtain ⟨function, hf, rfl⟩ := List.mem_map.mp (List.mem_of_head? hfirst)
      rw [List.filterMap_cons_some hkey, List.map_cons, hfile function (List.mem_of_mem_filter hf)]
      exact (ih hfiles).cons_cons _

theorem nodup_units_of_package {α : Type} (of : UnitKey → α) {package : Label}
    (h : ∀ file ∈ files, ∀ function ∈ file.functions, function.package = package)
    (hnodup : (files.map fun file =>
      of ⟨package, FileName.base file.fileName ++ config.suffix⟩).Nodup) :
    ((units table config files).map of).Nodup := by
  refine .sublist ((units_sublist_of_package h).map of) ?_
  rwa [List.map_map]

theorem units_sublist {new : List SourceFile} (h : new.Sublist files) :
    (units table config new).Sublist (units table config files) :=
  (h.filter _).filterMap _

theorem IsDistinct.of_perm (h : IsDistinct table config directory working)
    (hagree : SymbolTable.AgreeOn (fun _ => True) table other)
    (hperm : other.files.Perm table.files) : IsDistinct other config directory working := by
  have hunits : (units other config other.files).Perm (units table config table.files) := by
    have hkeys : unitKey? other config = unitKey? table config :=
      funext fun file => (hagree.sees file).unitKey?_eq
    rw [units, hkeys]
    exact (hperm.filter _).filterMap _
  refine ⟨?_, (hunits.map _).nodup_iff.mpr h.names, (hunits.map _).nodup_iff.mpr h.places⟩
  exact (((hperm.flatMap_right _).filter _).map _).nodup_iff.mpr h.classes

section

variable (h : IsDistinct table config directory working) {new : List SourceFile}
  (hnew : table.newFiles? = some new)
include h hnew

theorem IsDistinct.sources_eq : sources table config [] (accepted config new) =
    (accepted config new).filterMap (source? table config) :=
  sources_of_nodup (fun _ _ => List.not_mem_nil)
    (h.names.sublist ((units_sublist (SymbolTable.sublist_of_newFiles? hnew)).map _))

theorem IsDistinct.nodup_places :
    ((sources table config [] (accepted config new)).map
      fun source => (unitPath directory source.1).place working).Nodup := by
  have hkeys := congrArg (List.map (unitPath directory · |>.place working))
    (map_filterMap_source? table config (accepted config new))
  rw [List.map_map] at hkeys
  rw [h.sources_eq hnew]
  exact hkeys ▸
    h.places.sublist ((units_sublist (SymbolTable.sublist_of_newFiles? hnew)).map _)

end

/-- The units of a table that agrees on everything are planned as they are for this one. -/
theorem IsDistinct.sources_of_agreeOn (h : IsDistinct table config directory working)
    {new : List SourceFile} (hagree : SymbolTable.AgreeOn (fun _ => True) table other)
    (hperm : other.files.Perm table.files) (hnew : other.newFiles? = some new) :
    sources other config [] (accepted config new) =
      (accepted config new).filterMap (source? table config) := by
  have hsource : source? other config = source? table config := by
    funext file
    rw [source?, source?, (hagree.sees file).unitKey?_eq]
  rw [(h.of_perm hagree hperm).sources_eq hnew, hsource]

section

variable {files' : List SourceFile} (hagree : SymbolTable.AgreeOn (fun _ => True) table other)
  (hperm : files'.Perm files)
include hagree hperm

theorem deferred_of_perm : (deferred other config files').Perm (deferred table config files) := by
  have hsame : (fun file : SourceFile => deferredOf other config file.functions) =
      fun file => deferredOf table config file.functions :=
    funext fun file => (hagree.sees file).deferredOf_eq
  rw [deferred, hsame]
  exact hperm.flatMap_right _

theorem violations_of_perm :
    (violations other config files').Perm (violations table config files) := by
  have hsame : (fun file : SourceFile => violationsOf other config file.path file.functions) =
      fun file => violationsOf table config file.path file.functions :=
    funext fun file => (hagree.sees file).violationsOf_eq
  rw [violations, hsame]
  exact hperm.flatMap_right _

end

end Plan

namespace Session

variable {table other : SymbolTable} {config : Config} {directory : Path}
  {world world' second second' : World} {deferred deferred' : List FunctionDecl}
  {after after' : Session} {output : Output}

theorem isUndisturbed_of_isDistinct (hdistinct : Plan.IsDistinct table config directory working)
    (h : Ends (round table) (fresh directory config) world deferred after world')
    (ho : output ∈ after.units.outputs.created)
    (hplace : (Path.parse config.reportPath).place working ≠ output.path.place working) :
    after.IsUndisturbed working output := by
  obtain ⟨new, hnew, hcreated, -⟩ := created_first h
  have hreport := (ends_round (isIdle_fresh directory config) h).1.report_eq
  refine ⟨fun other hother hsame => ?_, fun he => hplace ?_⟩
  · rw [hcreated] at ho hother
    obtain ⟨source, hs, rfl⟩ := List.mem_map.mp ho
    obtain ⟨source', hs', rfl⟩ := List.mem_map.mp hother
    rw [List.inj_on_of_nodup_map (hdistinct.nodup_places hnew) hs' hs hsame]
  · exact (congrArg (·.path.place working) hreport).symm.trans he

/-- An output of two rounds reads the same at the end of both, if they have the same text for it
and the report is not put in its place. -/
theorem read?_of_both (hdistinct : Plan.IsDistinct table config directory world.files.working)
    (hworking : second.files.working = world.files.working)
    (hagree : SymbolTable.AgreeOn (fun _ => True) table other)
    (hperm : other.files.Perm table.files)
    (h : Ends (round table) (fresh directory config) world deferred after world')
    (h' : Ends (round other) (fresh directory config) second deferred' after' second')
    {text : Text} (hg : Plan.Generates table config directory output text)
    (hg' : Plan.Generates other config directory output text)
    (hplace : (Path.parse config.reportPath).place world.files.working ≠
      output.path.place world.files.working) :
    second'.files.read? output.path = world'.files.read? output.path := by
  obtain ⟨bytes, hbytes, hread⟩ := read?_of_generates h hg
  obtain ⟨_, hbytes', hread'⟩ := read?_of_generates h' hg'
  obtain rfl := Option.some.inj (hbytes.symm.trans hbytes')
  rw [hworking] at hread'
  rw [hread (isUndisturbed_of_isDistinct hdistinct h ((mem_created_iff h).mpr ⟨text, hg⟩) hplace),
    hread' (isUndisturbed_of_isDistinct (hdistinct.of_perm hagree hperm) h'
      ((mem_created_iff h').mpr ⟨text, hg'⟩) hplace)]

-- ---------------------------------------------------------------------------
-- Files in another order
-- ---------------------------------------------------------------------------

section

variable {files : List SourceFile}
  (hdistinct : Plan.IsDistinct table config directory world.files.working)
  (hperm : files.Perm table.files)
  (h : Ends (round table) (fresh directory config) world deferred after world')
  (h' : Ends (round { table with files }) (fresh directory config) world deferred' after' second')
include hdistinct hperm

theorem sources_of_perm {new new' : List SourceFile} (hnew : table.newFiles? = some new)
    (hnew' : { table with files }.newFiles? = some new') :
    (Plan.sources { table with files } config [] (Plan.accepted config new')).Perm
      (Plan.sources table config [] (Plan.accepted config new)) := by
  have hagree := SymbolTable.agreeOn_of_perm hdistinct.classes hperm fun _ => True
  rw [hdistinct.sources_of_agreeOn hagree hperm hnew', hdistinct.sources_eq hnew]
  exact ((SymbolTable.newFiles?_of_perm hperm hnew hnew').filter _).filterMap _

include h h'

theorem created_of_perm :
    after'.units.outputs.created.Perm after.units.outputs.created := by
  obtain ⟨new, hnew, hcreated, -⟩ := created_first h
  obtain ⟨new', hnew', hcreated', -⟩ := created_first h'
  rw [hcreated, hcreated']
  exact (sources_of_perm hdistinct hperm hnew hnew').map _

theorem generates_of_perm {text : Text} :
    Plan.Generates { table with files } config directory output text ↔
      Plan.Generates table config directory output text := by
  obtain ⟨new, hnew, -⟩ := created_first h
  obtain ⟨new', hnew', -⟩ := created_first h'
  have hsources := sources_of_perm hdistinct hperm hnew hnew'
  have hagree := SymbolTable.agreeOn_of_perm hdistinct.classes hperm fun _ => True
  simp only [Plan.Generates, hnew, hnew', Option.some.injEq, exists_eq_left', hsources.mem_iff,
    (hagree.sees _).unitText_eq]

theorem deferred_perm : deferred'.Perm deferred := by
  obtain ⟨new, hnew, hheld⟩ := ends_first_round h
  obtain ⟨new', hnew', hheld'⟩ := ends_first_round h'
  rw [hheld.deferred_eq, hheld'.deferred_eq]
  exact Plan.deferred_of_perm (SymbolTable.agreeOn_of_perm hdistinct.classes hperm fun _ => True)
    ((SymbolTable.newFiles?_of_perm hperm hnew hnew').filter _)

theorem mem_records_of_perm (line : Text) :
    line ∈ Plan.recordsAt second'.files (Path.parse config.reportPath) ↔
      line ∈ Plan.recordsAt world'.files (Path.parse config.reportPath) := by
  obtain ⟨new, hnew, hheld⟩ := ends_first_round h
  obtain ⟨new', hnew', hheld'⟩ := ends_first_round h'
  have hagree := SymbolTable.agreeOn_of_perm hdistinct.classes hperm fun _ => True
  obtain ⟨units, hunits, hreport, hencodable⟩ := hheld.placed
  obtain ⟨units', hunits', hreport', hencodable'⟩ := hheld'.placed
  rw [Round.first_sources] at hunits hunits'
  -- before the report is written, the trees are the same
  have hcontent (source : UnitKey × SourceFile) :
      ((Round.first { table with files } config).unitText source.1 source.2).utf8?.getD .empty =
        ((Round.first table config).unitText source.1 source.2).utf8?.getD .empty :=
    congrArg (·.utf8?.getD .empty) ((hagree.sees source.2).unitText_eq source.1)
  have hsame : FileTree.Same units units' :=
    FileTree.same_of_perm (sources_of_perm hdistinct hperm hnew hnew') (hdistinct.nodup_places hnew)
      (fun source _ => hcontent source) hunits hunits'
  exact Plan.mem_recordsAt_of_perm hsame
    (Plan.violations_of_perm hagree ((SymbolTable.newFiles?_of_perm hperm hnew hnew').filter _))
    hreport hreport' hencodable hencodable' line

end

-- ---------------------------------------------------------------------------
-- Some of the files
-- ---------------------------------------------------------------------------

section

variable {paths : List Label}
  (hdistinct : Plan.IsDistinct table config directory world.files.working)
  (hall : table.newPaths = none)
include hdistinct hall

/-- The units of the new files are those that the files have when all are new. -/
theorem sources_of_paths {new new' : List SourceFile} (hnew : table.newFiles? = some new)
    (hnew' : { table with newPaths := some paths }.newFiles? = some new') :
    Plan.sources { table with newPaths := some paths } config [] (Plan.accepted config new') =
      (Plan.sources table config [] (Plan.accepted config new)).filter
        fun source => Label.has paths source.2.path := by
  rw [hdistinct.sources_of_agreeOn (table.agreeOn_of_paths paths _) (.refl _) hnew',
    hdistinct.sources_eq hnew]
  obtain rfl : table.files = new := by simpa [SymbolTable.newFiles?, hall] using hnew
  obtain ⟨-, rfl⟩ : _ ∧ table.files.filter (Label.has paths ·.path) = new' := by
    simpa [SymbolTable.newFiles?] using hnew'
  exact Plan.filterMap_source?_filter _

variable (h : Ends (round table) (fresh directory config) world deferred after world')
  (h' : Ends (round { table with newPaths := some paths }) (fresh directory config) second
    deferred' after' second')
include h h'

theorem created_of_paths : after'.units.outputs.created =
    after.units.outputs.created.filter fun output => output.sources.all (Label.has paths) := by
  obtain ⟨new, hnew, hcreated, -⟩ := created_first h
  obtain ⟨new', hnew', hcreated', -⟩ := created_first h'
  rw [hcreated, hcreated', sources_of_paths hdistinct hall hnew hnew', List.filter_map]
  simp [Plan.output, Function.comp_def]

theorem generates_of_paths {text : Text} :
    Plan.Generates { table with newPaths := some paths } config directory output text ↔
      Plan.Generates table config directory output text ∧
        output.sources.all (Label.has paths) = true := by
  obtain ⟨new, hnew, -⟩ := created_first h
  obtain ⟨new', hnew', -⟩ := created_first h'
  have hagree := table.agreeOn_of_paths paths fun _ => True
  simp only [Plan.Generates, hnew, hnew', Option.some.injEq, exists_eq_left',
    sources_of_paths hdistinct hall hnew hnew', List.mem_filter, (hagree.sees _).unitText_eq]
  constructor
  · rintro ⟨source, ⟨hs, hpath⟩, rfl, rfl⟩
    exact ⟨⟨source, hs, rfl, rfl⟩, by simpa [Plan.output] using hpath⟩
  · rintro ⟨⟨source, hs, rfl, rfl⟩, hpath⟩
    exact ⟨source, ⟨hs, by simpa [Plan.output] using hpath⟩, rfl, rfl⟩

end

/-- A file with a function of each kind. -/
def moreCards : SourceFile :=
  ⟨.string "More.kt", .string "app", .kotlin, [previewed "More" .isPublic none,
    previewed "Hidden" .isPrivate none, previewed "Later" .isPublic (some .unknown)]⟩

theorem isDistinct_themed : Plan.IsDistinct (themed true [moreCards])
    { preview := .string "Preview" } (Path.parse "out") FileTree.home := by
  have hpackage : ∀ file ∈ (themed true [moreCards]).files, ∀ function ∈ file.functions,
      function.package = .string "app" := by
    simp only [themed, themedCard, themes, moreCards, SourceFile.functions, previewed,
      Declaration.function?, List.forall_mem_cons, List.filterMap_cons, List.filterMap_nil]
    simp
  exact ⟨by decide +kernel, Plan.nodup_units_of_package _ hpackage (by decide +kernel),
    Plan.nodup_units_of_package _ hpackage (by decide +kernel)⟩

/-- No source class and no unit has the name of another one, and no unit its path. -/
structure IsNamedApart (table : SymbolTable) (config : Config) (directory : Path) : Prop where
  classes : table.HasDistinctClasses
  names : ((Plan.units table config table.files).map (·.qualifiedName)).Nodup
  paths : ((Plan.units table config table.files).map (Plan.unitPath directory · |>.toText)).Nodup

/-- An output holds something else at the end if the files are in the opposite order. -/
def TellsOrder (table : SymbolTable) (config : Config) (directory : Path) (world : World) : Prop :=
  ∃ deferred after world' deferred' after' second',
    Ends (round table) (fresh directory config) world deferred after world' ∧
    Ends (round { table with files := table.files.reverse }) (fresh directory config) world
      deferred' after' second' ∧
    ∃ output ∈ after.units.outputs.created,
      second'.files.read? output.path ≠ world'.files.read? output.path

/-- Runs tell the order if their evaluation does, by whatever test there is for equal bytes. -/
theorem tellsOrder_of [DecidableEq ByteArray]
    (h : endsWith (round table) (fresh directory config) world (fun _ after world' =>
      endsWith (round { table with files := table.files.reverse }) (fresh directory config) world
        fun _ _ second' => after.units.outputs.created.any fun output =>
          decide (second'.files.read? output.path ≠ world'.files.read? output.path)) = true) :
    TellsOrder table config directory world := by
  obtain ⟨deferred, after, world', hends, hnext⟩ := exists_ends_of _ _ _ _ h
  obtain ⟨deferred', after', second', hends', hany⟩ := exists_ends_of _ _ _ _ hnext
  obtain ⟨output, ho, htold⟩ := List.any_eq_true.mp hany
  exact ⟨deferred, after, world', deferred', after', second', hends, hends', output, ho,
    of_decide_eq_true htold⟩

/-- A file with a private function. -/
def hiddenIn (path : Text) : SourceFile :=
  ⟨.string path, .string "app", .kotlin, [previewed "Hidden" .isPrivate none]⟩

end Session

end PreviewShots
