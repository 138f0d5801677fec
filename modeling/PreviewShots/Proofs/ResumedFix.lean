import PreviewShots.Proofs.SourceFix

/-!
# Fixes that are taken up again

A run that stops at a file that is no text leaves the report where it is, and every other file
with all the names of a group or with none of them. When the file has been mended the next run
comes to what an uninterrupted one would have come to (`run_resumed`): names that a file was
visited with before make no difference. That is so of a run that stops at a path, and is not cut
short by the medium: a part of a file is not what it was.
-/

open PreviewShots.Task

namespace PreviewShots

namespace FileTree

variable {tree tree' : FileTree} {path : Path} {names : Location → List Text}

theorem Fixes.read?_eq (h : Fixes names tree tree')
    (hnone : ∀ location, tree.locate path = .found location → names location = []) :
    tree'.read? path = tree.read? path := by
  have hentry : tree'.entry? path = tree.entry? path := by
    simp only [ entry?, h.locate path]
    cases hlocate : tree.locate path with
    | found location =>
      dsimp only
      rw [h.entries location, hnone location hlocate, funext Entry.fixed_nil, Option.map_id']
    | absent => rfl
    | tooLong => rfl
  rw [read?, read?, hentry]

theorem isReadable_of_read? {bytes : ByteArray} {content : String}
    (hbytes : tree.read? path = some bytes) (hcontent : String.fromUTF8? bytes = some content) :
    tree.IsReadable path := by
  obtain ⟨location, hlocate, hfile⟩ := read?_eq_some.mp hbytes
  exact .inr ⟨by simp [isThere?, hlocate, hfile], bytes, content, hbytes, hcontent⟩

end FileTree

namespace VisibilityFix

variable {σ : Type} {state state' : σ} {world world' : World} {fault : Fault} {report : Path}
  {root : Label} {base : Option Path} {tree tree' left mended whole : FileTree}
  {groups : List (Text × List Text)} {location : Location}

/-- The paths that the lines of the report name. -/
def sources (base : Option Path) (tree : FileTree) (report : Path) : List Path :=
  (groupsAt tree report).map (sourcePath base ·.1)

/-- Every name of the report is made of word characters and ends in none of the two keywords. -/
def NamesAreSimple (tree : FileTree) (report : Path) : Prop :=
  ∀ line ∈ Plan.recordsAt tree report, ∀ record, Record.ofLine? line = some record →
    IsSimple record.name

/-- What was mended is so in both trees. Elsewhere the one is what an interrupted run has left
and the other what it has found, and no path that led there leads elsewhere. The report is what
it was, all paths can be visited, and neither fix is cut short. -/
structure Mends (base : Option Path) (report : Path) (tree left mended whole : FileTree) :
    Prop where
  medium_eq : mended.toMedium = whole.toMedium
  entries : ∀ location, whole.at? location = mended.at? location ∨
    mended.at? location = left.at? location ∧ whole.at? location = tree.at? location ∧
      ∀ path ∈ sources base tree report, tree.locate path = .found location →
        mended.locate path = .found location
  report_eq : mended.read? report = tree.read? report
  apart : ∀ path ∈ sources base tree report, ¬ mended.Meet path report
  visitable : ∀ path ∈ sources base tree report, IsVisitable mended path
  uncut : ¬ IsCutShort base (groupsAt tree report) mended
  uncut_whole : ¬ IsCutShort base (groupsAt tree report) whole

-- ---------------------------------------------------------------------------
-- Names
-- ---------------------------------------------------------------------------

theorem mem_namesFor {name : Text} : name ∈ namesFor base groups tree location ↔
    ∃ entry ∈ groups, LeadsTo tree location (sourcePath base entry.1) ∧ name ∈ entry.2 := by
  simp only [namesFor, List.mem_flatMap]
  refine exists_congr fun entry => and_congr_right fun _ => ?_
  split <;> simp_all

theorem isSimple_of_mem_namesFor {name : Text} (hnames : NamesAreSimple tree report)
    (h : name ∈ namesFor base (groupsAt tree report) tree' location) : IsSimple name := by
  obtain ⟨⟨path, names⟩, hentry, -, hname⟩ := mem_namesFor.mp h
  rw [groupsAt, group_eq] at hentry
  obtain ⟨record, hrecord, rfl⟩ := exists_of_mem_byPath hentry hname
  obtain ⟨line, hline, hof⟩ := List.mem_filterMap.mp hrecord
  exact hnames line (List.mem_eraseDups.mp hline) record hof

/-- Where no path of the groups leads to the report, there is no name for it. -/
theorem namesFor_report (hapart : ∀ entry ∈ groups, ¬ tree.Meet (sourcePath base entry.1) report)
    (hlocate : tree.locate report = .found location) :
    namesFor base groups tree location = [] := by
  refine List.eq_nil_iff_forall_not_mem.mpr fun name hname => ?_
  obtain ⟨entry, hentry, hleads, -⟩ := mem_namesFor.mp hname
  exact hapart entry hentry ⟨location, hleads.2, hlocate⟩

theorem groupsAt_congr (h : tree'.read? report = tree.read? report) :
    groupsAt tree' report = groupsAt tree report := by
  rw [groupsAt, groupsAt, Plan.recordsAt, h]
  rfl

theorem at?_eq_of_remove? {after after' : FileTree}
    (hlocate : tree'.locate report = tree.locate report)
    (hsame : ∀ location, tree'.at? location = tree.at? location)
    (h : tree.remove? report = some after) (h' : tree'.remove? report = some after')
    (location : Location) : after'.at? location = after.at? location := by
  obtain ⟨gone, hgone, hd, rfl⟩ := FileTree.remove?_eq_some h
  obtain ⟨gone', hgone', hd', rfl⟩ := FileTree.remove?_eq_some h'
  obtain rfl := FileTree.Lead.found.inj (hgone'.symm.trans (hlocate.trans hgone))
  rw [FileTree.at?_erase (FileTree.isAbove_of_not_isDirectory hd),
    FileTree.at?_erase (FileTree.isAbove_of_not_isDirectory hd'), hsame]

-- ---------------------------------------------------------------------------
-- Runs
-- ---------------------------------------------------------------------------

/-- Only a report that is there is applied. -/
theorem not_isAbsent_of_fails_run (h : Fails (run report root) state world fault state' world') :
    ¬ world.files.IsAbsent report := by
  intro habsent
  rw [Fails, run, run_bind, ends_isThere_of_isAbsent state habsent] at h
  exact not_fails_nothingFound h

theorem not_isCutShort (htakes : ∀ location bytes, tree.breaks? location bytes = none) :
    ¬ IsCutShort base groups tree :=
  fun ⟨_, _, _, _, hcut⟩ => hcut (htakes ..)

theorem Stops.barred_of_not (h : Stops base groups tree tree')
    (hcut : ¬ IsCutShort base groups tree) :
    ∃ done entry rest, groups = done ++ entry :: rest ∧
      ¬ IsVisitable tree (sourcePath base entry.1) ∧
      FileTree.Fixes (namesFor base done tree) tree tree' := by
  cases h with
  | barred hgroups hbarred hfixes => exact ⟨_, _, _, hgroups, hbarred, hfixes⟩
  | broken _ hshort => exact absurd hshort hcut

/-- Where all paths can be visited and the fix is not cut short, all files are fixed and the report
is removed. -/
theorem exists_ends_run {bytes : ByteArray} {content : String} (state : σ)
    (hbase : base? root = some base) (hpath : pathFault? report = none)
    (hbytes : world.files.read? report = some bytes)
    (hcontent : String.fromUTF8? bytes = some content)
    (h : ∀ path ∈ sources base world.files report, IsVisitable world.files path)
    (hcut : ¬ IsCutShort base (groupsAt world.files report) world.files) :
    ∃ total world' between, Ends (run report root) state world total state world' ∧
      FileTree.Fixes (namesFor base (groupsAt world.files report) world.files) world.files between ∧
      between.remove? report = some world'.files := by
  have hreadable := FileTree.isReadable_of_read? hbytes hcontent
  rcases ends_or_fails (run report root) state world with ⟨total, _, world', hends⟩ |
    ⟨_, _, _, hfails⟩
  · obtain ⟨rfl, -⟩ := ends_run hends
    obtain ⟨habsent | habsent, -⟩ | ⟨names, between, hfixes, hremove, hall⟩ :=
      fixes_of_ends_run hends
    · exact absurd hpath habsent
    · cases hbytes.symm.trans (FileTree.read?_of_isThere? habsent)
    · exact ⟨total, world', between, hends, hall base hbase ▸ hfixes, hremove⟩
  · obtain ⟨-, hnone | hnone⟩ | ⟨other, hother, hstops⟩ := stops_of_fails_run hfails
    · exact absurd hreadable hnone
    · cases hbase.symm.trans hnone
    · obtain rfl := Option.some.inj (hbase.symm.trans hother)
      obtain ⟨done, entry, rest, hgroups, hbarred, -⟩ := hstops.barred_of_not hcut
      refine absurd (h _ (List.mem_map_of_mem ?_)) hbarred
      rw [hgroups]
      simp

/-- The mended files differ from the whole ones by names that are applied again. -/
theorem Mends.exists_fixes {done rest : List (Text × List Text)}
    (h : Mends base report tree left mended whole) (hgroups : groupsAt tree report = done ++ rest)
    (hleft : FileTree.Fixes (namesFor base done tree) tree left) :
    ∃ names, FileTree.Fixes names whole mended ∧
      ∀ location, names location ⊆ namesFor base (groupsAt tree report) mended location := by
  have hentries (location : Location) : ∃ names : List Text,
      mended.at? location = (whole.at? location).map (Entry.fixed names) ∧
        names ⊆ namesFor base (groupsAt tree report) mended location := by
    rcases h.entries location with hsame | ⟨hmended, hwhole, hleads⟩
    · refine ⟨[], ?_, List.nil_subset _⟩
      rw [hsame, funext Entry.fixed_nil, Option.map_id']
    · refine ⟨namesFor base done tree location, by rw [hmended, hwhole, hleft.entries],
        fun name hname => ?_⟩
      obtain ⟨entry, hentry, ⟨hpath, hlocate⟩, hin⟩ := mem_namesFor.mp hname
      have hlisted : entry ∈ groupsAt tree report := hgroups ▸ List.mem_append_left _ hentry
      exact mem_namesFor.mpr ⟨entry, hlisted,
        ⟨hpath, hleads _ (List.mem_map_of_mem hlisted) hlocate⟩, hin⟩
  choose names hfixes hsub using hentries
  exact ⟨names, ⟨h.medium_eq, hfixes⟩, hsub⟩

theorem Mends.read?_whole {names : Location → List Text}
    (h : Mends base report tree left mended whole) (hfixes : FileTree.Fixes names whole mended)
    (hsub : ∀ location, names location ⊆ namesFor base (groupsAt tree report) mended location) :
    whole.read? report = tree.read? report := by
  rw [← h.report_eq]
  refine (hfixes.read?_eq fun location hlocate => List.subset_nil.mp ?_).symm
  rw [← namesFor_report (fun entry hentry => h.apart _ (List.mem_map_of_mem hentry))
    ((hfixes.locate report).trans hlocate)]
  exact hsub location

/-- Of two trees that differ by names of the report only, a run makes the same. -/
theorem exists_ends_both {mended whole : World} {names : Location → List Text} {bytes : ByteArray}
    {content : String} (state : σ) (hbase : base? root = some base)
    (hpath : pathFault? report = none) (hbytes : mended.files.read? report = some bytes)
    (hcontent : String.fromUTF8? bytes = some content)
    (hsame : whole.files.read? report = mended.files.read? report)
    (hnames : NamesAreSimple mended.files report)
    (hvisitable : ∀ path ∈ sources base mended.files report, IsVisitable mended.files path)
    (hfixes : FileTree.Fixes names whole.files mended.files)
    (hcut : ¬ IsCutShort base (groupsAt mended.files report) mended.files)
    (hcut' : ¬ IsCutShort base (groupsAt mended.files report) whole.files)
    (hsub : ∀ location,
      names location ⊆ namesFor base (groupsAt mended.files report) mended.files location) :
    ∃ total resumed total' uninterrupted,
      Ends (run report root) state mended total state resumed ∧
      Ends (run report root) state whole total' state uninterrupted ∧
      ∀ location, resumed.files.at? location = uninterrupted.files.at? location := by
  have hgroups := groupsAt_congr hsame
  have hvisitable' : ∀ path ∈ sources base whole.files report, IsVisitable whole.files path := by
    rw [sources, hgroups]
    exact fun path hm => (isVisitable_iff_of_fixes path hfixes).mp (hvisitable path hm)
  obtain ⟨total, resumed, fixed, hends, hfixed, hremove⟩ :=
    exists_ends_run state hbase hpath hbytes hcontent hvisitable hcut
  obtain ⟨total', uninterrupted, fixed', hends', hfixed', hremove'⟩ :=
    exists_ends_run state hbase hpath (hsame.trans hbytes) hcontent hvisitable' (hgroups ▸ hcut')
  rw [hgroups, ← namesFor_congr hfixes.locate] at hfixed'
  refine ⟨total, resumed, total', uninterrupted, hends, hends',
    at?_eq_of_remove? ?_ ?_ hremove' hremove⟩
  · rw [hfixed.locate, hfixed'.locate, hfixes.locate]
  · exact hfixes.at?_eq hsub (fun _ _ => isSimple_of_mem_namesFor hnames) hfixed' hfixed

theorem not_meet_of_locate_ne {path other : Path} (h : tree.locate path ≠ tree.locate other) :
    ¬ tree.Meet path other :=
  fun ⟨_, hpath, hother⟩ => h (hpath.trans hother.symm)

/-- An entry is put in place in both trees. -/
theorem mends_set {entry : Entry} (hmedium : left.toMedium = tree.toMedium)
    (hbelow : tree.isAbove location = false)
    (hlocate : ∀ path ∈ sources base tree report,
      (left.set location entry).locate path = tree.locate path)
    (hreport : (left.set location entry).read? report = tree.read? report)
    (hapart : ∀ path ∈ sources base tree report,
      (left.set location entry).locate path ≠ (left.set location entry).locate report)
    (hvisitable : ∀ path ∈ sources base tree report,
      IsVisitable (left.set location entry) path)
    (htakes : ∀ other bytes, tree.breaks? other bytes = none) :
    Mends base report tree left (left.set location entry) (tree.set location entry) where
  medium_eq := hmedium
  entries other := by
    rw [FileTree.at?_set hbelow, FileTree.at?_set (hmedium ▸ hbelow)]
    by_cases ho : other = location
    · exact .inl (by simp [ho])
    · exact .inr ⟨by simp [ho], by simp [ho], fun path hm hl => (hlocate path hm).trans hl⟩
  report_eq := hreport
  apart path hm := not_meet_of_locate_ne (hapart path hm)
  visitable := hvisitable
  uncut := not_isCutShort fun other bytes => by
    rw [FileTree.set_toMedium, hmedium]
    exact htakes other bytes
  uncut_whole := not_isCutShort htakes

/-- A report whose names are simple, and that no path of its own leads to, can be applied again if a
run stops that is not cut short: the report is what it was, each file has all the names of the
groups before and none of the others, and once all paths can be visited a further run ends with the
files as a run over the whole would have left them. -/
theorem run_resumed (hbase : base? root = some base) (hreadable : world.files.IsReadable report)
    (hnames : NamesAreSimple world.files report)
    (hapart : ∀ path ∈ sources base world.files report, ¬ world.files.Meet path report)
    (hcut : ¬ IsCutShort base (groupsAt world.files report) world.files)
    (h : Fails (run report root) state world fault state' world') :
    world'.files.read? report = world.files.read? report ∧
    (∃ done entry rest, groupsAt world.files report = done ++ entry :: rest ∧
      ¬ IsVisitable world.files (sourcePath base entry.1) ∧
      FileTree.Fixes (namesFor base done world.files) world.files world'.files) ∧
    ∀ mended whole : World,
      Mends base report world.files world'.files mended.files whole.files →
      ∃ total resumed total' uninterrupted,
        Ends (run report root) state mended total state resumed ∧
        Ends (run report root) state whole total' state uninterrupted ∧
        resumed.files.IsAbsent report ∧
        ∀ location, resumed.files.at? location = uninterrupted.files.at? location := by
  obtain ⟨-, hnone | hnone⟩ | ⟨other, hother, hstops⟩ := stops_of_fails_run h
  · exact absurd hreadable hnone
  · cases hbase.symm.trans hnone
  obtain rfl := Option.some.inj (hbase.symm.trans hother)
  obtain ⟨done, entry, rest, hgroups, hbarred, hleft⟩ := hstops.barred_of_not hcut
  refine ⟨hleft.read?_eq fun location hlocate => namesFor_report (fun entry hentry => ?_) hlocate,
    ⟨done, entry, rest, hgroups, hbarred, hleft⟩, fun mended whole hmends => ?_⟩
  · exact hapart _ (List.mem_map_of_mem (hgroups ▸ List.mem_append_left _ hentry))
  obtain ⟨names, hfixes, hsub⟩ := hmends.exists_fixes hgroups hleft
  obtain ⟨hpath, hthere⟩ := not_or.mp (not_isAbsent_of_fails_run h)
  obtain ⟨-, bytes, content, hbytes, hcontent⟩ := hreadable.resolve_left hthere
  have hmended := hmends.report_eq
  have hgroups' := groupsAt_congr hmended
  have hnames' : NamesAreSimple mended.files report := by
    rwa [NamesAreSimple, Plan.recordsAt, hmended]
  obtain ⟨total, resumed, total', uninterrupted, hends, hends', hsame⟩ :=
    exists_ends_both state hbase (not_not.mp hpath) (hmended.trans hbytes) hcontent
      ((hmends.read?_whole hfixes hsub).trans hmended.symm) hnames'
      (by rw [sources, hgroups']; exact hmends.visitable) hfixes
      (by rw [hgroups']; exact hmends.uncut) (by rw [hgroups']; exact hmends.uncut_whole)
      (by rwa [hgroups'])
  exact ⟨total, resumed, total', uninterrupted, hends, hends', (ends_run hends).2.absent, hsame⟩

/-- A directory stands where the second file should be, and a text is put in its place. The first
file is listed by its path from the root. -/
theorem dark_resumed :
    let report := Path.parse "report.txt"
    let dark : Location := FileTree.home ++ [Text.ofString "Dark.kt"]
    let world : World := .ofFiles (.ofEntries
      [([Text.ofString "report.txt"], .file "/home/work/Cards.kt|Card\nDark.kt|Dark\n".toUTF8),
      ([Text.ofString "Cards.kt"], .file "private fun Card() \x7b\x7d".toUTF8),
      ([Text.ofString "Dark.kt"], .directory)])
    let mend (files : FileTree) : World :=
      .ofFiles (files.set dark (.file "private fun Dark() \x7b\x7d".toUTF8))
    ∃ state' world', Fails (run report .null) () world .fileSystem state' world' ∧
      ∃ total resumed total' uninterrupted,
        Ends (run report .null) () (mend world'.files) total () resumed ∧
        Ends (run report .null) () (mend world.files) total' () uninterrupted ∧
        resumed.files.IsAbsent report ∧
        ∀ location, resumed.files.at? location = uninterrupted.files.at? location := by
  intro report dark world mend
  obtain ⟨state', world', h⟩ := exists_fails (run report .null) () world (by decide +kernel)
  have hleft : world'.files = (run (m := StateM World) report .null () world).2.files := by rw [h]
  have hsources : sources none world.files report =
      [Path.parse "/home/work/Cards.kt", Path.parse "Dark.kt"] := by decide +kernel
  have hnames : NamesAreSimple world.files report := by
    have hrecords : (Plan.recordsAt world.files report).filterMap Record.ofLine? =
        [⟨"/home/work/Cards.kt", "Card"⟩, ⟨"Dark.kt", "Dark"⟩] := by decide +kernel
    intro line hline record hof
    have hrecord := hrecords ▸ List.mem_filterMap.mpr ⟨line, hline, hof⟩
    simp only [List.mem_cons, List.not_mem_nil, or_false] at hrecord
    obtain rfl | rfl := hrecord <;>
      exact ⟨by decide, by decide +kernel, by decide, by decide⟩
  have hapart : ∀ path ∈ sources none world.files report,
      world.files.locate path ≠ world.files.locate report := by decide +kernel
  have hreadable : world.files.IsReadable report := FileTree.isReadable_of_read? rfl
    (fromUTF8?_toUTF8 "/home/work/Cards.kt|Card\nDark.kt|Dark\n")
  obtain ⟨-, ⟨_, _, _, -, -, hfixes⟩, hresumed⟩ := run_resumed rfl hreadable hnames
    (fun path hm => not_meet_of_locate_ne (hapart path hm)) (not_isCutShort fun _ _ => rfl) h
  have hmends : Mends none report world.files world'.files (mend world'.files).files
      (mend world.files).files := by
    refine mends_set hfixes.medium_eq (by decide) ?_ ?_ ?_ ?_ fun _ _ => rfl
    · rw [hleft]
      decide +kernel
    · rw [hleft]
      decide +kernel
    · rw [hleft]
      decide +kernel
    · rw [hleft, hsources]
      refine List.forall_mem_cons.mpr ⟨.inr ?_, List.forall_mem_singleton.mpr (.inr ?_)⟩
      · refine FileTree.isReadable_of_read? ?_ (fromUTF8?_toUTF8 "internal fun Card() \x7b\x7d")
        decide +kernel
      · refine FileTree.isReadable_of_read? ?_ (fromUTF8?_toUTF8 "private fun Dark() \x7b\x7d")
        decide +kernel
  obtain ⟨total, resumed, total', uninterrupted, hends, hends', hgone, hsame⟩ := hresumed _ _ hmends
  exact ⟨state', world', h, total, resumed, total', uninterrupted, hends, hends', hgone, hsame⟩

end VisibilityFix

end PreviewShots
