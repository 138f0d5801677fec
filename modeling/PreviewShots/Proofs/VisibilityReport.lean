import PreviewShots.Proofs.Plan

/-!
# The report by the plan

Flushing puts the report in place that is planned for the violations pending, and
leaves none pending.
-/

open PreviewShots.Task

namespace PreviewShots

section

variable {path : Path} {violations : List Violation} {tree tree' : FileTree}

/-- The report that was put in place reads back. -/
theorem Plan.read?_placeReport? (h : placeReport? path violations tree = some tree')
    (hne : violations ≠ []) :
    tree'.read? path = some ((reportText tree path violations).utf8?.getD .empty) := by
  cases violations with
  | nil => exact absurd rfl hne
  | cons violation violations => exact FileTree.read?_place? h

theorem Plan.grows_placeReport? (h : placeReport? path violations tree = some tree') :
    FileTree.Grows tree tree' := by
  cases violations with
  | nil =>
    cases h
    exact (FileTree.Extends.refl tree).grows
  | cons violation violations =>
    obtain ⟨_, hplaced⟩ := FileTree.placed_of_place? h
    exact hplaced.grows

theorem Plan.read?_other_placeReport? (h : placeReport? path violations tree = some tree')
    {other : Path} {bytes : ByteArray} (hr : tree.read? other = some bytes)
    (hapart : violations ≠ [] → ¬ tree'.Meet path other) : tree'.read? other = some bytes := by
  cases violations with
  | nil =>
    cases h
    exact hr
  | cons violation violations =>
    obtain ⟨_, hplaced⟩ := FileTree.placed_of_place? h
    exact hplaced.read? hr (hapart (List.cons_ne_nil _ _))

end

namespace ReportWriter

variable {world world' : World}

theorem ends_readReport {σ : Type} {state state' : σ} {path : Path} {records : List Text}
    (hpath : pathFault? path = none) :
    Ends (readReport path) state world records state' world' ↔
      world.files.IsReadable path ∧ records = Plan.recordsAt world.files path ∧ state' = state ∧
        world' = world := by
  simp only [readReport, ends_bind, ends_isThere hpath]
  constructor
  · rintro ⟨there, _, _, ⟨hthere, rfl, rfl⟩, hread⟩
    cases there with
    | false =>
      obtain ⟨rfl, rfl, rfl⟩ := ends_pure.mp hread
      exact ⟨.inl hthere, by simp [Plan.recordsAt, FileTree.read?_of_isThere? hthere], rfl, rfl⟩
    | true =>
      simp only [↓reduceIte, readText, ends_bind, ends_pure, ends_readChars] at hread
      obtain ⟨_, _, _, ⟨_, _, _, ⟨-, ⟨bytes, text, hbytes, htext, rfl⟩, rfl, rfl⟩, rfl, rfl, rfl⟩,
        rfl, rfl, rfl⟩ := hread
      refine ⟨.inr ⟨hthere, bytes, text, hbytes, htext⟩, ?_, rfl, rfl⟩
      simp [Plan.recordsAt, hbytes, htext]
  · rintro ⟨hthere | ⟨hthere, bytes, text, hbytes, htext⟩, rfl, rfl, rfl⟩
    · refine ⟨false, _, _, ⟨hthere, rfl, rfl⟩, ends_pure.mpr ⟨?_, rfl, rfl⟩⟩
      simp [Plan.recordsAt, FileTree.read?_of_isThere? hthere]
    · refine ⟨true, _, _, ⟨hthere, rfl, rfl⟩, ?_⟩
      simp only [↓reduceIte, readText, ends_bind, ends_pure, ends_readChars]
      exact ⟨_, _, _,
        ⟨_, _, _, ⟨hpath, ⟨bytes, text, hbytes, htext, rfl⟩, rfl, rfl⟩, rfl, rfl, rfl⟩,
        by simp [Plan.recordsAt, hbytes, htext], rfl, rfl⟩

theorem ends_record {writer writer' : ReportWriter} {violation : Violation} {u : Unit}
    (h : Ends (record violation) writer world u writer' world') :
    writer' = { writer with pending := writer.pending ++ [violation] } ∧
      world'.files = world.files ∧ world'.warned = world.warned ++ [violation.record] := by
  simp only [record, ends_bind, ends_modify, ends_notify] at h
  obtain ⟨_, _, _, ⟨rfl, rfl⟩, rfl, rfl⟩ := h
  exact ⟨rfl, rfl, by simp [World.warned, Notice.record?, Violation.record]⟩

/-- What it takes to write the report with what is pending. -/
structure IsFlushable (writer : ReportWriter) (tree tree' : FileTree) : Prop where
  path : pathFault? writer.path = none
  parent : pathFault? writer.path.parent = none
  readable : tree.IsReadable writer.path
  encodable : (Plan.reportText tree writer.path writer.pending).isEncodable = true
  placed : tree.place? writer.path
    ((Plan.reportText tree writer.path writer.pending).utf8?.getD .empty) = some tree'

/-- What is told of a report that is written. -/
def told (writer : ReportWriter) (tree : FileTree) : Notice :=
  let old := (Plan.recordsAt tree writer.path).eraseDups
  let all := VisibilityReport.merge old (writer.pending.map (·.record.line))
  .reportWritten writer.path.toText (all.length - old.length) all.length

theorem ends_flush_of_nil {writer writer' : ReportWriter} {written : Option Path}
    (hnil : writer.pending = []) : Ends flush writer world written writer' world' ↔
      written = none ∧ writer' = writer ∧ world' = world := by
  simp only [flush, ends_bind, ends_get]
  constructor
  · rintro ⟨_, _, _, ⟨rfl, rfl, rfl⟩, h⟩
    rw [if_pos (List.isEmpty_iff.mpr hnil)] at h
    exact ends_pure.mp h
  · rintro ⟨rfl, rfl, rfl⟩
    refine ⟨_, _, _, ⟨rfl, rfl, rfl⟩, ?_⟩
    rw [if_pos (List.isEmpty_iff.mpr hnil)]
    exact ends_pure.mpr ⟨rfl, rfl, rfl⟩

theorem ends_flush_of_ne_nil {writer writer' : ReportWriter} {written : Option Path}
    (hne : writer.pending ≠ []) : Ends flush writer world written writer' world' ↔
      written = some writer.path ∧ writer' = { writer with pending := [] } ∧
      ∃ files, writer.IsFlushable world.files files ∧
        world' = { world with files, notices := world.notices ++ [writer.told world.files] } := by
  have hsome : ¬ writer.pending.isEmpty = true := mt List.isEmpty_iff.mp hne
  simp only [flush, ends_bind, ends_get]
  constructor
  · rintro ⟨_, _, _, ⟨rfl, rfl, rfl⟩, h⟩
    rw [if_neg hsome] at h
    simp only [ends_bind, ends_makeDirectories, ends_writeText, ends_notify, ends_modify,
      ends_pure] at h
    obtain ⟨records, _, _, hread, _, _, _, ⟨hparent, rfl, made, hmade, rfl⟩,
      _, _, _, ⟨hpath, hencodable, rfl, files, hwrite, rfl⟩, _, _, _, ⟨rfl, rfl⟩,
      _, _, _, ⟨rfl, rfl⟩, rfl, rfl, rfl⟩ := h
    obtain ⟨hreadable, rfl, rfl, rfl⟩ := (ends_readReport hpath).mp hread
    exact ⟨rfl, rfl, files, ⟨hpath, hparent, hreadable, hencodable,
      FileTree.place?_eq_some.mpr ⟨made, hmade, hwrite⟩⟩, rfl⟩
  · rintro ⟨rfl, rfl, files, ⟨hpath, hparent, hreadable, hencodable, hfiles⟩, rfl⟩
    refine ⟨_, _, _, ⟨rfl, rfl, rfl⟩, ?_⟩
    rw [if_neg hsome]
    simp only [ends_bind, ends_makeDirectories, ends_writeText, ends_notify, ends_modify,
      ends_pure]
    obtain ⟨made, hmade, hwrite⟩ := FileTree.place?_eq_some.mp hfiles
    exact ⟨_, _, _, (ends_readReport hpath).mpr ⟨hreadable, rfl, rfl, rfl⟩,
      (), _, _, ⟨hparent, rfl, made, hmade, rfl⟩,
      (), _, _, ⟨hpath, hencodable, rfl, files, hwrite, rfl⟩, (), _, _, ⟨rfl, rfl⟩,
      ⟨⟩, _, _, ⟨rfl, rfl⟩, trivial, rfl, rfl⟩

theorem ends_flush {writer writer' : ReportWriter} {written : Option Path}
    (h : Ends flush writer world written writer' world') :
    writer' = { writer with pending := [] } ∧ world'.warned = world.warned ∧
      Plan.placeReport? writer.path writer.pending world.files = some world'.files := by
  by_cases hnil : writer.pending = []
  · obtain ⟨-, rfl, rfl⟩ := (ends_flush_of_nil hnil).mp h
    cases writer'
    simp_all [Plan.placeReport?]
  · obtain ⟨-, rfl, files, hflushable, rfl⟩ := (ends_flush_of_ne_nil hnil).mp h
    refine ⟨rfl, by simp [World.warned, told, Notice.record?], ?_⟩
    have hsome : ¬ writer.pending.isEmpty = true := mt List.isEmpty_iff.mp hnil
    rw [Plan.placeReport?, if_neg hsome]
    exact hflushable.placed

theorem isEncodable_of_ends_flush {writer writer' : ReportWriter} {written : Option Path}
    (h : Ends flush writer world written writer' world') (hne : writer.pending ≠ []) :
    (Plan.reportText world.files writer.path writer.pending).isEncodable = true :=
  let ⟨_, _, _, hflushable, _⟩ := (ends_flush_of_ne_nil hne).mp h
  hflushable.encodable

end ReportWriter

end PreviewShots
