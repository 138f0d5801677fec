import PreviewShots.Proofs.ReportText
import PreviewShots.VisibilityFix

/-!
# Records by file

The visibility fix groups the lines of a report by file. A line is cut at its last bar, so the
path may hold bars and the name may not: the groups are those of the violations that were
reported as long as no name of them holds a bar, and never otherwise
(`VisibilityFix.group_reported_iff`).
-/

open PreviewShots.Task

namespace PreviewShots

-- ---------------------------------------------------------------------------
-- Lists
-- ---------------------------------------------------------------------------

namespace Keyed

variable {κ ν : Type} [BEq κ] [LawfulBEq κ] [DecidableEq κ] {keys : List κ} {value : κ → ν}

theorem lookup_map (key : κ) : (keys.map fun k => (k, value k)).lookup key =
    if key ∈ keys then some (value key) else none := by
  induction keys with
  | nil => rfl
  | cons k keys ih =>
    by_cases h : key = k
    · simp [h]
    · rw [List.map_cons, lookup_cons_ne _ _ h, ih]
      simp [h]

theorem put_map (key : κ) (new : ν) (h : keys.Nodup) :
    put key new (keys.map fun k => (k, value k)) =
      (if key ∈ keys then keys else keys ++ [key]).map
        fun k => (k, if k = key then new else value k) := by
  induction keys with
  | nil => simp [put]
  | cons k keys ih =>
    obtain ⟨hk, hkeys⟩ := List.nodup_cons.mp h
    by_cases hkey : k = key
    · subst hkey
      have hother : ∀ other ∈ keys, other ≠ k := fun other ho he => hk (he ▸ ho)
      simp +contextual [put, hother]
    · have hmem : key ∈ k :: keys ↔ key ∈ keys := by simp [Ne.symm hkey]
      have hput := ih hkeys
      by_cases hm : key ∈ keys <;> simp_all [put]

end Keyed

-- ---------------------------------------------------------------------------
-- Records
-- ---------------------------------------------------------------------------

namespace Text

variable {α : Type} [DecidableEq α] {sep : α}

theorem cutLast?_append {text rest : List α} (h : sep ∉ rest) :
    cutLast? sep (text ++ sep :: rest) = some (text, rest) := by
  have hrest : ∀ c ∈ rest.reverse, decide (c ≠ sep) = true := fun c hc =>
    decide_eq_true fun he => h (he ▸ List.mem_reverse.mp hc)
  rw [cutLast?, if_pos (by simp), afterLast, List.reverse_append, List.reverse_cons,
    List.append_assoc, List.takeWhile_append_of_pos hrest, List.dropWhile_append_of_pos hrest]
  simp

theorem sep_not_mem_of_cutLast? {text front rest : List α}
    (h : cutLast? sep text = some (front, rest)) : sep ∉ rest := by
  simp only [cutLast?] at h
  split at h
  · cases h
    exact sep_not_mem_afterLast sep text
  · cases h

end Text

namespace Record

variable {line : Text} {record : Record}

/-- A name that is read holds no bar. -/
theorem separator_not_mem_of_ofLine? (h : ofLine? line = some record) :
    separator ∉ record.name := by
  simp only [ofLine?] at h
  split at h
  · next path name hcut =>
    split at h
    · cases h
    · cases h
      exact Text.sep_not_mem_of_cutLast? hcut
  · cases h

theorem ofLine?_line (hpath : record.path ≠ []) (hname : record.name ≠ [])
    (h : separator ∉ record.name) : ofLine? record.line = some record := by
  simp [ofLine?, line, Text.cutLast?_append h, hpath, hname]

end Record

namespace VisibilityFix

/-- The names of the records with the path, in the order they come. -/
def namesAt (records : List Record) (path : Text) : List Text :=
  (records.filter (·.path = path)).map (·.name)

/-- The paths of the records in the order they come, each with its names. -/
def byPath (records : List Record) : List (Text × List Text) :=
  (records.map (·.path)).eraseDups.map fun path => (path, namesAt records path)

theorem namesAt_concat (records : List Record) (record : Record) (path : Text) :
    namesAt (records ++ [record]) path =
      if path = record.path then namesAt records record.path ++ [record.name]
      else namesAt records path := by
  by_cases h : path = record.path
  · simp [namesAt, h]
  · simp [namesAt, h, Ne.symm h]

theorem namesAt_eq_nil {records : List Record} {path : Text}
    (h : path ∉ records.map (·.path)) : namesAt records path = [] := by
  simpa [namesAt] using h

theorem byPath_concat (records : List Record) (record : Record) :
    byPath (records ++ [record]) = Keyed.put record.path
      (((byPath records).lookup record.path).getD [] ++ [record.name]) (byPath records) := by
  have hlookup : ((byPath records).lookup record.path).getD [] = namesAt records record.path := by
    rw [byPath, Keyed.lookup_map]
    split
    · rfl
    · next hnew => exact (namesAt_eq_nil (mt List.mem_eraseDups.mpr hnew)).symm
  rw [hlookup, byPath, byPath, Keyed.put_map _ _ (nodup_eraseDups _), List.map_append,
    List.map_singleton, eraseDups_concat]
  simp only [namesAt_concat, List.mem_eraseDups]

/-- What is read of the lines, by file, and a notice for each line that is malformed. -/
theorem group_eq (lines : List Text) : group lines =
    (byPath (lines.filterMap Record.ofLine?),
      (lines.filter fun line => (Record.ofLine? line).isNone).map .recordMalformed) := by
  induction lines using List.reverseRecOn with
  | nil => rfl
  | append_singleton lines line ih =>
    have hstep : group (lines ++ [line]) = group.addRecord (group lines) line := by
      simp [group]
    rw [hstep, ih, group.addRecord]
    split
    · next hnone => simp [hnone]
    · next path name hsome =>
      simp [hsome, byPath_concat]

theorem exists_mem_byPath {records : List Record} {record : Record} (h : record ∈ records) :
    ∃ names, (record.path, names) ∈ byPath records ∧ record.name ∈ names :=
  ⟨_, List.mem_map_of_mem (List.mem_eraseDups.mpr (List.mem_map_of_mem h)),
    List.mem_map_of_mem (List.mem_filter.mpr ⟨h, by simp⟩)⟩

theorem exists_of_mem_byPath {records : List Record} {path name : Text} {names : List Text}
    (h : (path, names) ∈ byPath records) (hname : name ∈ names) :
    ∃ record ∈ records, record.name = name := by
  obtain ⟨_, -, he⟩ := List.mem_map.mp h
  obtain ⟨-, rfl⟩ := Prod.mk.inj he
  obtain ⟨record, hrecord, rfl⟩ := List.mem_map.mp hname
  exact ⟨record, List.mem_of_mem_filter hrecord, rfl⟩

/-- The lines of records are grouped as the records are, if and only if no name holds a bar. -/
theorem group_lines_iff {records : List Record}
    (h : ∀ record ∈ records, record.path ≠ [] ∧ record.name ≠ []) :
    group (records.map (·.line)).eraseDups = (byPath records.eraseDups, []) ↔
      ∀ record ∈ records, Record.separator ∉ record.name := by
  rw [group_eq]
  constructor
  · intro hgroup record hrecord hbar
    obtain ⟨names, hgroups, hname⟩ := exists_mem_byPath (List.mem_eraseDups.mpr hrecord)
    rw [← (Prod.mk.inj hgroup).1] at hgroups
    obtain ⟨other, hother, he⟩ := exists_of_mem_byPath hgroups hname
    obtain ⟨line, -, hline⟩ := List.mem_filterMap.mp hother
    exact Record.separator_not_mem_of_ofLine? hline (he ▸ hbar)
  · intro hnames
    have hread : ∀ record ∈ records, Record.ofLine? record.line = some record :=
      fun record hm => Record.ofLine?_line (h record hm).1 (h record hm).2 (hnames record hm)
    have hlines : (records.map (·.line)).eraseDups = records.eraseDups.map (·.line) := by
      refine eraseDups_map fun left hl right hr he => ?_
      exact Option.some.inj (hread left hl ▸ he ▸ hread right hr)
    have hself : ∀ record ∈ records.eraseDups, Record.ofLine? record.line = some record :=
      fun record hm => hread record (List.mem_eraseDups.mp hm)
    have hwell : (records.eraseDups.map (·.line)).filterMap Record.ofLine? = records.eraseDups := by
      rw [List.filterMap_map]
      exact (List.filterMap_congr hself).trans List.filterMap_some
    have hill : (records.eraseDups.map (·.line)).filter
        (fun line => (Record.ofLine? line).isNone) = [] := by
      simpa using fun record hm => by simp [hread record hm]
    rw [hlines, hwell, hill, List.map_nil]

end VisibilityFix

-- ---------------------------------------------------------------------------
-- Reports
-- ---------------------------------------------------------------------------

section

variable {σ : Type} {state : σ} {writer after : ReportWriter} {written : Option Path}
  {world world' : World}

/-- A report that was not there before reads as what was pending. -/
theorem ReportWriter.ends_readReport_flush (habsent : world.files.isThere? writer.path = some false)
    (hlines : ∀ violation ∈ writer.pending, violation.record.line.IsLine)
    (h : Ends flush writer world written after world') :
    Ends (readReport writer.path) state world' (writer.pending.map (·.record.line)).eraseDups
      state world' := by
  have hold : Plan.recordsAt world.files writer.path = [] := by
    simp [Plan.recordsAt, FileTree.read?_of_isThere? habsent]
  by_cases hnil : writer.pending = []
  · obtain ⟨-, -, rfl⟩ := (ends_flush_of_nil hnil).mp h
    rw [hnil]
    cases hpath : pathFault? writer.path with
    | none => exact (ends_readReport hpath).mpr ⟨.inl habsent, hold.symm, rfl, rfl⟩
    | some fault => simp [readReport, isThere, hpath, ends_pure]
  · obtain ⟨-, -, files, hflushable, rfl⟩ := (ends_flush_of_ne_nil hnil).mp h
    obtain ⟨hreadable, hrecords⟩ := hflushable.reads hlines
    refine (ends_readReport hflushable.path).mpr ⟨hreadable, ?_, rfl, rfl⟩
    rw [hrecords, hold]
    rfl

/-- The violations that the first report lists are grouped by file as they were recorded, if and
only if no name of them holds a bar. -/
theorem VisibilityFix.group_reported_iff
    (habsent : world.files.isThere? writer.path = some false)
    (hrecords : ∀ violation ∈ writer.pending, violation.record.path ≠ [] ∧
      violation.record.name ≠ [] ∧ violation.record.line.IsLine)
    (h : Ends ReportWriter.flush writer world written after world') :
    ∃ lines, Ends (ReportWriter.readReport writer.path) state world' lines state world' ∧
      (group lines.eraseDups = (byPath (writer.pending.map (·.record)).eraseDups, []) ↔
        ∀ violation ∈ writer.pending, Record.separator ∉ violation.record.name) := by
  refine ⟨_, ReportWriter.ends_readReport_flush habsent (fun v hv => (hrecords v hv).2.2) h, ?_⟩
  have hsome : ∀ record ∈ writer.pending.map (·.record), record.path ≠ [] ∧ record.name ≠ [] := by
    simpa using fun v hv => ⟨(hrecords v hv).1, (hrecords v hv).2.1⟩
  have hiff := group_lines_iff hsome
  rw [eraseDups_eraseDups]
  simpa [List.map_map, Function.comp_def] using hiff

end

namespace VisibilityFix

/-- A name of several words is grouped with its file. -/
theorem dark_card_grouped :
    let writer : ReportWriter := ⟨Path.parse "report.txt",
      [⟨.string "Cards.kt", .string "Card"⟩, ⟨.string "a|b/Cards.kt", .string "Dark card"⟩,
        ⟨.string "Cards.kt", .string "Empty"⟩]⟩
    let groups : List (Text × List Text) :=
      [("Cards.kt", ["Card", "Empty"]), ("a|b/Cards.kt", ["Dark card"])]
    ∃ written after world', Ends ReportWriter.flush writer (.ofFiles .empty) written after world' ∧
      ∃ lines, Ends (ReportWriter.readReport writer.path) () world' lines () world' ∧
        group lines.eraseDups = (groups, []) := by
  intro writer groups
  obtain ⟨written, after, world', h⟩ :=
    exists_ends ReportWriter.flush writer (.ofFiles .empty) (by decide +kernel)
  obtain ⟨lines, hread, hiff⟩ :
      ∃ lines, Ends (ReportWriter.readReport writer.path) () world' lines () world' ∧ _ :=
    group_reported_iff (by decide) (by decide) h
  exact ⟨written, after, world', h, lines, hread, hiff.mpr (by decide)⟩

/-- A name with a bar in it is cut, and the first part of it is taken for the path. -/
theorem light_dark_misread :
    let writer : ReportWriter :=
      ⟨Path.parse "report.txt", [⟨.string "Cards.kt", .string "light|dark"⟩]⟩
    let recorded : List (Text × List Text) := [("Cards.kt", ["light|dark"])]
    let misread : List (Text × List Text) := [("Cards.kt|light", ["dark"])]
    ∃ written after world', Ends ReportWriter.flush writer (.ofFiles .empty) written after world' ∧
      ∃ lines, Ends (ReportWriter.readReport writer.path) () world' lines () world' ∧
        group lines.eraseDups = (misread, []) ∧ group lines.eraseDups ≠ (recorded, []) := by
  intro writer recorded misread
  obtain ⟨written, after, world', h⟩ :=
    exists_ends ReportWriter.flush writer (.ofFiles .empty) (by decide +kernel)
  exact ⟨written, after, world', h, _,
    ReportWriter.ends_readReport_flush (by decide) (by decide) h, rfl,
    fun hgroups => absurd (congrArg Prod.fst hgroups) (by decide)⟩

end VisibilityFix

end PreviewShots
