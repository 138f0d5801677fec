import PreviewShots.Proofs.Halt
import PreviewShots.Proofs.Obstruction
import PreviewShots.Proofs.ReportText

/-!
# Merging into the report

With violations pending, a flush leaves the records that the report held, each once, and
behind them those that are new to it. A flush that fails leaves all files as they were, and
what is pending, provided the records have a form in UTF-8 and the medium takes the text
(`ReportWriter.flush_merges`).
-/

open PreviewShots.Task

namespace PreviewShots

-- ---------------------------------------------------------------------------
-- Files that were not written
-- ---------------------------------------------------------------------------

namespace FileTree

variable {tree tree' : FileTree} {path : Path} {location : Location} {bytes : ByteArray}

theorem Tried.file_iff (h : Tried path tree tree') :
    tree'.at? location = some (.file bytes) ↔ tree.at? location = some (.file bytes) := by
  rcases h.paved.entries location with heq | ⟨hnone, hd, -⟩
  · rw [heq]
  · simp [hnone, hd]

/-- A path to which no file could be put leads to none afterwards that was not there before. -/
theorem Tried.read? (h : Tried path tree tree')
    (hbarred : ¬ (path.IsFit tree.working ∧ tree.IsOpen path)) :
    tree'.read? path = tree.read? path := by
  cases hr : tree.read? path with
  | some bytes =>
    obtain ⟨location, hl, he⟩ := read?_eq_some.mp hr
    exact read?_eq_some.mpr ⟨location, h.extends.grows.locate hl, h.extends.entries _ _ he⟩
  | none =>
    refine Option.eq_none_iff_forall_ne_some.mpr fun bytes hr' => ?_
    obtain ⟨location, hl, he⟩ := read?_eq_some.mp hr'
    by_cases hparent : path.parent.byteSize < pathLimit
    · have hplaced : Placed path bytes location tree tree' :=
        ⟨hl, he, h.extends.grows, fun other entry _ => h.extends.entries other entry⟩
      exact hbarred ⟨hplaced.isFit hparent, hplaced.isOpen⟩
    · -- no directory is made for a path that is too long
      have hsame : tree' = tree := by
        cases h with
        | untouched => rfl
        | made => simp [makeDirectories, Nat.not_lt.mp hparent]
      simp [hsame, hr] at hr'

end FileTree

-- ---------------------------------------------------------------------------
-- Records
-- ---------------------------------------------------------------------------

theorem VisibilityReport.merge_eq (old new : List Text) : merge old.eraseDups new =
    old.eraseDups ++ (new.filter (· ∉ old.eraseDups)).eraseDups := by
  rw [merge, List.eraseDups_append, eraseDups_eraseDups, List.removeAll]
  simp

theorem Text.isEncodable_iff {text : Text} :
    text.isEncodable = true ↔ ∀ c ∈ text, c.char?.isSome = true := by
  simp [isEncodable]

namespace Plan

variable {tree : FileTree} {path : Path} {violations : List Violation}

theorem isEncodable_of_mem_recordsAt {line : Text} (h : line ∈ recordsAt tree path) :
    line.isEncodable = true := by
  simp only [recordsAt] at h
  split at h
  · obtain ⟨part, hpart, rfl⟩ := List.mem_map.mp (List.mem_of_mem_filter h)
    refine Text.isEncodable_iff.mpr fun c hc => ?_
    exact Text.isEncodable_iff.mp (Text.isEncodable_ofChars _) c
      (Text.subset_of_mem_splitOn hpart (Text.trim_subset part hc))
  · cases h

theorem isEncodable_reportText
    (h : ∀ violation ∈ violations, violation.record.line.isEncodable = true) :
    (reportText tree path violations).isEncodable = true := by
  have hfeed : ∀ c ∈ Text.ofString "\n", c.char?.isSome = true := by decide
  refine Text.isEncodable_iff.mpr fun c hc => ?_
  rcases List.mem_append.mp hc with hc | hc
  · rcases Text.mem_or_mem_of_mem_joinWith hc with hc | ⟨line, hline, hc⟩
    · exact hfeed c hc
    · refine Text.isEncodable_iff.mp ?_ c hc
      rcases List.mem_append.mp (List.mem_eraseDups.mp hline) with hold | hnew
      · exact isEncodable_of_mem_recordsAt (List.mem_eraseDups.mp hold)
      · obtain ⟨violation, hv, rfl⟩ := List.mem_map.mp hnew
        exact h violation hv
  · exact hfeed c hc

end Plan

-- ---------------------------------------------------------------------------
-- Flushes
-- ---------------------------------------------------------------------------

namespace ReportWriter

variable {writer after : ReportWriter} {world world' : World} {fault : Fault}
  {written : Option Path}

/-- What a flush that ends makes of the report. -/
theorem merged_of_ends_flush (h : Ends flush writer world written after world')
    (hne : writer.pending ≠ [])
    (hlines : ∀ violation ∈ writer.pending, violation.record.line.IsLine) :
    let old := (Plan.recordsAt world.files writer.path).eraseDups
    let new := ((writer.pending.map (·.record.line)).filter (· ∉ old)).eraseDups
    (old ++ new).Nodup ∧ Plan.recordsAt world'.files writer.path = old ++ new ∧
      ∃ bytes, (VisibilityReport.render (old ++ new)).utf8? = some bytes ∧
        world'.files.read? writer.path = some bytes := by
  intro old new
  have hall : VisibilityReport.merge old (writer.pending.map (·.record.line)) = old ++ new :=
    VisibilityReport.merge_eq _ _
  obtain ⟨-, -, files, hflushable, rfl⟩ := (ends_flush_of_ne_nil hne).mp h
  obtain ⟨bytes, hbytes⟩ := Text.exists_utf8?_of_isEncodable hflushable.encodable
  have hread := FileTree.read?_place? hflushable.placed
  rw [hbytes, Option.getD_some] at hread
  refine ⟨hall ▸ nodup_eraseDups _, ?_, bytes, hall ▸ hbytes, hread⟩
  rw [← hall]
  exact (hflushable.reads hlines).2

/-- A flush that fails leaves all files as they were. -/
theorem kept_of_fails_flush (h : Fails flush writer world fault after world')
    (hencodable : ∀ violation ∈ writer.pending, violation.record.line.isEncodable = true)
    (htakes : world.files.Takes writer.path
      ((Plan.reportText world.files writer.path writer.pending).utf8?.getD .empty)) :
    (∀ location bytes, world'.files.at? location = some (.file bytes) ↔
        world.files.at? location = some (.file bytes)) ∧
      (pathFault? writer.path = none →
        world'.files.read? writer.path = world.files.read? writer.path) := by
  obtain ⟨-, -, hrefused⟩ := refused_of_fails_flush h
  have htext : (Plan.reportText world.files writer.path writer.pending).isEncodable = true :=
    Plan.isEncodable_reportText hencodable
  generalize world'.files = left at hrefused ⊢
  cases hrefused with
  | unreadable => exact ⟨fun _ _ => Iff.rfl, fun _ => rfl⟩
  | parentUnnamed => exact ⟨fun _ _ => Iff.rfl, fun _ => rfl⟩
  | unnamed hfault htried =>
    exact ⟨fun _ _ => htried.file_iff, fun hpath => by simp [hpath] at hfault⟩
  | barred hbarred htried =>
    exact ⟨fun _ _ => htried.file_iff, fun _ => htried.read? hbarred⟩
  | broken hbroke =>
    rcases hbroke.eq_or with rfl | hnot
    · exact absurd htakes hbroke.not_takes
    · simp [htext] at hnot

/-- With violations pending, a flush merges their records into the report, and to flush them
again changes nothing. A flush that fails leaves them pending, and changes no file if it is not
the text of the report that is not taken. With none pending it does nothing. -/
theorem flush_merges (writer : ReportWriter) (world : World)
    (hlines : ∀ violation ∈ writer.pending, violation.record.line.IsLine) :
    let old := (Plan.recordsAt world.files writer.path).eraseDups
    let new := ((writer.pending.map (·.record.line)).filter (· ∉ old)).eraseDups
    (writer.pending = [] → Ends flush writer world none writer world) ∧
    (writer.pending ≠ [] → ∀ {written after world'},
      Ends flush writer world written after world' →
        after = { writer with pending := [] } ∧
        ((old ++ new).Nodup ∧ Plan.recordsAt world'.files writer.path = old ++ new ∧
          ∃ bytes, (VisibilityReport.render (old ++ new)).utf8? = some bytes ∧
            world'.files.read? writer.path = some bytes) ∧
        ∀ later : World, later.files = world'.files → ∃ written' later',
          Ends flush writer later written' after later' ∧ later'.files = world'.files) ∧
    (∀ {fault after world'}, Fails flush writer world fault after world' →
      after = writer ∧
      ((∀ violation ∈ writer.pending, violation.record.line.isEncodable = true) →
        world.files.Takes writer.path
          ((Plan.reportText world.files writer.path writer.pending).utf8?.getD .empty) →
        (∀ location bytes, world'.files.at? location = some (.file bytes) ↔
          world.files.at? location = some (.file bytes)) ∧
        (pathFault? writer.path = none →
          world'.files.read? writer.path = world.files.read? writer.path))) :=
  ⟨fun hnil => (ends_flush_of_nil hnil).mpr ⟨rfl, rfl, rfl⟩,
    fun hne _ _ _ h => ⟨(ends_flush h).1, merged_of_ends_flush h hne hlines,
      fun _ hlater => flush_again h hlater rfl (List.Subset.refl _) hlines⟩,
    fun h => ⟨(refused_of_fails_flush h).1, kept_of_fails_flush h⟩⟩

/-- Merged into a report with blanks and a record twice, and refused by a directory. -/
theorem cards_merged :
    let path := Path.parse "report.txt"
    let writer : ReportWriter :=
      ⟨path, [⟨.string "Cards.kt", .string "Card"⟩, ⟨.string "A.kt", .string "a"⟩]⟩
    let report : FileTree :=
      .ofEntries [([Text.ofString "report.txt"], .file "A.kt|a\r\n\n A.kt|a \nB.kt|b".toUTF8)]
    let directory : FileTree := .ofEntries [([Text.ofString "report.txt"], .directory)]
    let lines : List Text := ["A.kt|a", "B.kt|b", "Cards.kt|Card"]
    (∃ written world', Ends flush writer (.ofFiles report) written ⟨path, []⟩ world' ∧
      Plan.recordsAt world'.files path = lines ∧
      ∃ bytes, (VisibilityReport.render lines).utf8? = some bytes ∧
        world'.files.read? path = some bytes) ∧
    (∃ world', Fails flush writer (.ofFiles directory) .fileSystem writer world' ∧
      world'.files.read? path = none) ∧
    Ends flush ⟨path, []⟩ (.ofFiles report) none ⟨path, []⟩ (.ofFiles report) := by
  intro path writer report directory lines
  have hlines : ∀ violation ∈ writer.pending, violation.record.line.IsLine := by decide
  refine ⟨?_, ?_, (flush_merges ⟨path, []⟩ (.ofFiles report) (by simp)).1 rfl⟩
  · obtain ⟨written, after, world', h⟩ :=
      exists_ends flush writer (.ofFiles report) (by decide +kernel)
    obtain ⟨rfl, ⟨-, hrecords, hbytes⟩, -⟩ :=
      (flush_merges writer (.ofFiles report) hlines).2.1 (by simp [writer]) h
    have hall : (Plan.recordsAt report path).eraseDups ++ ((writer.pending.map
        (·.record.line)).filter (· ∉ (Plan.recordsAt report path).eraseDups)).eraseDups = lines := by
      decide +kernel
    exact ⟨written, world', h, hrecords.trans hall, hall ▸ hbytes⟩
  · obtain ⟨after, world', h⟩ :=
      exists_fails flush writer (.ofFiles directory) (by decide +kernel)
    obtain ⟨rfl, hkept⟩ := (flush_merges writer (.ofFiles directory) hlines).2.2 h
    exact ⟨world', h, ((hkept (by decide) rfl).2 (by decide)).trans (by rfl)⟩

/-- With none pending, a report keeps the records that it holds twice. -/
theorem copies_kept :
    let path := Path.parse "report.txt"
    let report : FileTree :=
      .ofEntries [([Text.ofString "report.txt"], .file "A.kt|a\nA.kt|a\n".toUTF8)]
    ∃ written after world', Ends flush ⟨path, []⟩ (.ofFiles report) written after world' ∧
      ¬ (Plan.recordsAt world'.files path).Nodup := by
  intro path report
  refine ⟨_, _, _, (ends_flush_of_nil rfl).mpr ⟨rfl, rfl, rfl⟩, ?_⟩
  decide +kernel

end ReportWriter

end PreviewShots
