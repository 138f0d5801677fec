import PreviewShots.Proofs.Obstruction
import PreviewShots.Proofs.Rounds

/-!
# What a first round generates

The plan of a first round has a text for each of its outputs (`Plan.Generates`), and one only
(`Session.generates_unique`). At the end the output reads as that text, unless another output
came to its place or the report did (`Session.read?_of_generates`).
-/

open PreviewShots.Task

namespace PreviewShots

namespace FileTree

variable {tree tree' : FileTree} {path other : Path}

theorem Holds.locate (hfit : path.IsFit tree.working) (h : tree.Holds path) :
    tree.locate path = .found (path.place tree.working) :=
  locate_of_stops hfit fun stop hm => isDirectory_iff.mpr (h.stops stop hm)

theorem place_eq_of_meet (hm : tree.Meet path other) :
    path.place tree.working = other.place tree.working := by
  obtain ⟨location, hl, hl'⟩ := hm
  exact (of_locate_eq_found hl).2.2.1.symm.trans (of_locate_eq_found hl').2.2.1

section

variable {α : Type} {place : α → Path} {content : α → ByteArray} {items : List α}

theorem isFit_of_foldlM
    (h : items.foldlM (fun tree item => tree.place? (place item) (content item)) tree =
      some tree') : ∀ item ∈ items, (place item).IsFit tree.working := by
  intro item hm
  obtain ⟨earlier, later, rfl⟩ := List.append_of_mem hm
  rw [List.foldlM_append] at h
  obtain ⟨_, hearlier, h⟩ := Option.bind_eq_some_iff.mp h
  obtain ⟨_, hplace, -⟩ := Option.bind_eq_some_iff.mp h
  rw [← (grows_of_foldlM hearlier).medium_eq]
  exact (isPut_of_place? hplace).fit

end

end FileTree

namespace Plan

theorem mem_of_mem_accepted {config : Config} {files : List SourceFile} {file : SourceFile}
    (h : file ∈ accepted config files) : file ∈ files :=
  List.mem_of_mem_filter h

theorem of_mem_sources {table : SymbolTable} {config : Config} {files : List SourceFile}
    {source : UnitKey × SourceFile} (h : source ∈ sources table config [] files) :
    source.2 ∈ files ∧ unitKey? table config source.2 = some source.1 := by
  rw [← Round.first_sources] at h
  exact ⟨(Round.sources_sublist _ [] files).subset (List.mem_map_of_mem h),
    (Round.firstOf?_sources h).1⟩

/-- The text that a first round with the table has for the output. -/
def Generates (table : SymbolTable) (config : Config) (directory : Path) (output : Output)
    (text : Text) : Prop :=
  ∃ files, table.newFiles? = some files ∧
    ∃ source ∈ sources table config [] (accepted config files),
      Plan.output directory source = output ∧ unitText table config source.1 source.2 = text

end Plan

namespace Session

/-- No other output is put in the place of this one, and no report is. -/
structure IsUndisturbed (session : Session) (working : Location) (output : Output) : Prop where
  outputs : ∀ other ∈ session.units.outputs.created,
    other.path.place working = output.path.place working → other.path = output.path
  report : session.report.path.place working ≠ output.path.place working

variable {table : SymbolTable} {config : Config} {directory : Path} {world world' : World}
  {deferred : List FunctionDecl} {after : Session} {output : Output} {text text' : Text}

section

variable (h : Ends (round table) (fresh directory config) world deferred after world')
include h

/-- The outputs of a first round are the planned ones, each of another path. -/
theorem created_first : ∃ files, table.newFiles? = some files ∧
    after.units.outputs.created =
      (Plan.sources table config [] (Plan.accepted config files)).map (Plan.output directory) ∧
    (after.units.outputs.created.map (·.path.toText)).Nodup := by
  obtain ⟨files, hfiles, hheld⟩ := ends_first_round h
  refine ⟨files, hfiles, ?_, hheld.distinct List.nodup_nil⟩
  rw [hheld.created, ← Round.first_sources]
  rfl

theorem mem_created_iff :
    output ∈ after.units.outputs.created ↔
      ∃ text, Plan.Generates table config directory output text := by
  obtain ⟨files, hfiles, hcreated, -⟩ := created_first h
  rw [hcreated]
  constructor
  · intro hm
    obtain ⟨source, hs, rfl⟩ := List.mem_map.mp hm
    exact ⟨_, files, hfiles, source, hs, rfl, rfl⟩
  · rintro ⟨text, _, hfiles', source, hs, rfl, -⟩
    obtain rfl := Option.some.inj (hfiles.symm.trans hfiles')
    exact List.mem_map_of_mem hs

/-- An output is of one source. -/
theorem source_unique {files : List SourceFile} (hfiles : table.newFiles? = some files)
    {source other : UnitKey × SourceFile}
    (hs : source ∈ Plan.sources table config [] (Plan.accepted config files))
    (ho : other ∈ Plan.sources table config [] (Plan.accepted config files))
    (hpath : Plan.unitPath directory other.1 = Plan.unitPath directory source.1) :
    other = source := by
  obtain ⟨_, hfiles', hcreated, hnodup⟩ := created_first h
  obtain rfl := Option.some.inj (hfiles.symm.trans hfiles')
  rw [hcreated, List.map_map] at hnodup
  exact List.inj_on_of_nodup_map hnodup ho hs (congrArg Path.toText hpath)

theorem generates_unique (hg : Plan.Generates table config directory output text)
    (hg' : Plan.Generates table config directory output text') : text' = text := by
  obtain ⟨files, hfiles, source, hs, rfl, rfl⟩ := hg
  obtain ⟨_, hfiles', other, ho, houtput, rfl⟩ := hg'
  obtain rfl := Option.some.inj (hfiles.symm.trans hfiles')
  rw [source_unique h hfiles hs ho (congrArg Output.path houtput)]

/-- A generated text has a form in UTF-8, as which the output reads at the end. -/
theorem read?_of_generates (hg : Plan.Generates table config directory output text) :
    ∃ bytes, text.utf8? = some bytes ∧
      (after.IsUndisturbed world.files.working output →
        world'.files.read? output.path = some bytes) := by
  obtain ⟨files, hfiles, ⟨key, file⟩, hs, rfl, rfl⟩ := hg
  obtain ⟨_, hfiles', hheld⟩ := ends_first_round h
  obtain rfl := Option.some.inj (hfiles.symm.trans hfiles')
  have hplanned := hs
  rw [← Round.first_sources] at hs
  obtain ⟨bytes, hbytes⟩ := Text.exists_utf8?_of_isEncodable (hheld.encodable _ hs)
  refine ⟨bytes, hbytes, fun hundisturbed => ?_⟩
  -- at the end of the round the unit is still in its place
  obtain ⟨units, hunits, hreport, -⟩ := hheld.placed
  have hmedium : world'.files.toMedium = world.files.toMedium :=
    (Plan.fills_placeReport? hreport).medium_eq.trans (FileTree.grows_of_foldlM hunits).medium_eq
  have hpath : after.report.path = Path.parse config.reportPath :=
    congrArg ReportWriter.path (ends_round (isIdle_fresh directory config) h).1.report_eq
  have hapart : (Round.first table config).IsApart directory [] (Plan.accepted config files)
      world'.files key := by
    refine ⟨fun source hsource hne hmeet => ?_,
      fun _ hmeet => hundisturbed.report (hpath ▸ hmedium ▸ FileTree.place_eq_of_meet hmeet)⟩
    rw [Round.first_sources] at hsource
    have hcreated : Plan.output directory source ∈ after.units.outputs.created :=
      (mem_created_iff h).mpr ⟨_, files, hfiles, source, hsource, rfl, rfl⟩
    have heq := hundisturbed.outputs _ hcreated (hmedium ▸ FileTree.place_eq_of_meet hmeet)
    exact hne (source_unique h hfiles hplanned hsource heq ▸ rfl)
  obtain ⟨_, hbytes', hread⟩ := hheld.read?_unit hs hapart
  exact hread.trans (hbytes'.symm.trans hbytes)

end

end Session

end PreviewShots
