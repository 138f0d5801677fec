import Mathlib.Data.List.DropRight
import Mathlib.Data.List.Nodup
import PreviewShots.Proofs.Name
import PreviewShots.Proofs.Placement
import PreviewShots.Proofs.VisibilityReport

/-!
# Reports that read back

A report is read line by line, and blank characters at the ends of a line are dropped. So of
each record its lines read back (`Plan.mem_recordsAt_place?`), and records that are lines read
back as they were written: a report that was written with some violations is written again with
any of them as it is (`IsFlushable.again`).
-/

open PreviewShots.Task

namespace PreviewShots

-- ---------------------------------------------------------------------------
-- Texts
-- ---------------------------------------------------------------------------

section

variable {α β : Type} [BEq α] [LawfulBEq α] [BEq β] [LawfulBEq β] {items more : List α}

theorem eraseDups_concat (items : List α) (item : α) : (items ++ [item]).eraseDups =
    if item ∈ items then items.eraseDups else items.eraseDups ++ [item] := by
  by_cases h : item ∈ items <;>
    simp [List.eraseDups_append, List.eraseDups_cons, List.removeAll, h]

theorem nodup_eraseDups (items : List α) : items.eraseDups.Nodup := by
  induction items using List.reverseRecOn with
  | nil => exact List.nodup_nil
  | append_singleton items item ih =>
    rw [eraseDups_concat]
    split
    · exact ih
    · next hnew => exact ih.append (List.nodup_singleton item) (by simpa using hnew)

theorem eraseDups_of_nodup (h : items.Nodup) : items.eraseDups = items := by
  induction items with
  | nil => rfl
  | cons item items ih =>
    obtain ⟨hitem, hitems⟩ := List.nodup_cons.mp h
    have hself : items.filter (fun other => !other == item) = items := by
      refine List.filter_eq_self.mpr fun other ho => ?_
      simpa using fun he : other = item => hitem (he ▸ ho)
    rw [List.eraseDups_cons, hself, ih hitems]

theorem eraseDups_eraseDups (items : List α) : items.eraseDups.eraseDups = items.eraseDups :=
  eraseDups_of_nodup (nodup_eraseDups items)

theorem eraseDups_map {f : α → β} (h : ∀ a ∈ items, ∀ b ∈ items, f a = f b → a = b) :
    (items.map f).eraseDups = items.eraseDups.map f := by
  induction items using List.reverseRecOn with
  | nil => rfl
  | append_singleton items item ih =>
    have hmem : f item ∈ items.map f ↔ item ∈ items := by
      refine ⟨fun hm => ?_, List.mem_map_of_mem⟩
      obtain ⟨other, ho, hf⟩ := List.mem_map.mp hm
      exact h other (by simp [ho]) item (by simp) hf ▸ ho
    rw [List.map_append, List.map_singleton, eraseDups_concat, eraseDups_concat,
      ih fun a ha b hb => h a (by simp [ha]) b (by simp [hb])]
    by_cases hitem : item ∈ items <;> simp [hmem, hitem]

/-- What is there is not added. -/
theorem eraseDups_append_append (rest : List α) (h : more ⊆ items) :
    (items ++ (more ++ rest)).eraseDups = (items ++ rest).eraseDups := by
  have hnone : more.filter (fun item => !items.elem item) = [] := by
    rw [List.filter_eq_nil_iff]
    intro item hm
    simp [h hm]
  rw [List.eraseDups_append, List.eraseDups_append, List.removeAll, List.filter_append, hnone,
    List.nil_append, List.removeAll]

theorem eraseDups_append_of_subset (h : more ⊆ items) :
    (items ++ more).eraseDups = items.eraseDups := by
  simpa using eraseDups_append_append [] h

end

namespace Text

theorem joinWith_concat (sep last : Text) {parts : List Text} (h : parts ≠ []) :
    joinWith sep (parts ++ [last]) = joinWith sep parts ++ sep ++ last := by
  induction parts with
  | nil => exact absurd rfl h
  | cons part parts ih =>
    cases parts with
    | nil => rfl
    | cons next parts =>
      have hnext := ih (by simp)
      simp only [List.cons_append] at hnext ⊢
      rw [joinWith_cons_cons, hnext, joinWith_cons_cons]
      simp

theorem trim_eq (text : Text) : trim text = List.rdropWhile isBlank (text.dropWhile isBlank) := rfl

theorem trim_trim (text : Text) : trim (trim text) = trim text := by
  have hhead : (trim text).dropWhile isBlank = trim text := by
    refine List.dropWhile_eq_self_iff.mpr fun hlength => ?_
    obtain ⟨c, cs, hc⟩ := List.exists_cons_of_length_pos hlength
    obtain ⟨rest, hrest⟩ := List.rdropWhile_prefix isBlank (text.dropWhile isBlank)
    have hfirst := List.head?_dropWhile_not isBlank text
    rw [← hrest, ← trim_eq, hc] at hfirst
    simpa [hc] using hfirst
  rw [trim_eq (trim text), hhead, trim_eq, List.rdropWhile_idempotent]

theorem trim_eq_nil {text : Text} : trim text = [] ↔ ∀ c ∈ text, isBlank c := by
  rw [trim_eq, List.rdropWhile_eq_nil_iff]
  constructor
  · intro h c hc
    rw [← List.takeWhile_append_dropWhile (p := isBlank) (l := text)] at hc
    rcases List.mem_append.mp hc with hc | hc
    · exact List.mem_takeWhile_imp hc
    · exact h c hc
  · exact fun h c hc => h c ((List.dropWhile_sublist isBlank).subset hc)

theorem trim_subset (text : Text) : trim text ⊆ text := fun _ hc =>
  (List.dropWhile_sublist isBlank).subset ((List.rdropWhile_prefix isBlank _).subset hc)

/-- A text that is a line of a file, and not blank at its ends. -/
structure IsLine (text : Text) : Prop where
  no_feed : CodePoint.char '\n' ∉ text
  no_return : CodePoint.char '\r' ∉ text
  trimmed : trim text = text

instance (text : Text) : Decidable text.IsLine :=
  decidable_of_iff (CodePoint.char '\n' ∉ text ∧ CodePoint.char '\r' ∉ text ∧ trim text = text)
    ⟨fun ⟨hfeed, hreturn, htrim⟩ => ⟨hfeed, hreturn, htrim⟩,
      fun ⟨hfeed, hreturn, htrim⟩ => ⟨hfeed, hreturn, htrim⟩⟩

theorem trimmedLines_join {lines : List Text} (h : ∀ line ∈ lines, line.IsLine ∧ line ≠ []) :
    trimmedLines (joinWith "\n" lines ++ "\n") = lines := by
  have hfeed : ofString "\n" = [CodePoint.char '\n'] := rfl
  have hself : (lines.map trim).filter (!·.isEmpty) = lines := by
    rw [List.map_congr_left fun line hm => (h line hm).1.trimmed, List.map_id']
    refine List.filter_eq_self.mpr fun line hm => ?_
    simpa using (h line hm).2
  rw [hfeed, trimmedLines]
  by_cases hnil : lines = []
  · subst hnil
    decide
  · have hjoin := joinWith_concat [CodePoint.char '\n'] [] hnil
    rw [List.append_nil] at hjoin
    rw [← hjoin, splitOn_joinWith (by simp)]
    · simpa [trim, dropBlank] using hself
    · intro line hm
      rcases List.mem_append.mp hm with hm | hm
      · exact (h line hm).1.no_feed
      · simp [List.mem_singleton.mp hm]

theorem isLine_of_mem_trimmedLines {text line : Text} (hreturn : CodePoint.char '\r' ∉ text)
    (h : line ∈ trimmedLines text) : line.IsLine ∧ line ≠ [] := by
  obtain ⟨hm, hsome⟩ := List.mem_filter.mp h
  obtain ⟨part, hpart, rfl⟩ := List.mem_map.mp hm
  refine ⟨⟨fun hc => ?_, fun hc => ?_, trim_trim part⟩, by simpa using hsome⟩
  · exact sep_not_mem_of_mem_splitOn hpart (trim_subset part hc)
  · exact hreturn (subset_of_mem_splitOn hpart (trim_subset part hc))

theorem unifyNewlines_of_not_mem {chars : List Char} (h : '\r' ∉ chars) :
    unifyNewlines chars = chars := by
  induction chars with
  | nil => rfl
  | cons c cs ih =>
    simp only [List.mem_cons, not_or] at h
    cases cs with
    | nil => simp [unifyNewlines, Ne.symm h.1]
    | cons d ds => simp [unifyNewlines, Ne.symm h.1, ih h.2]

theorem fromUTF8?_ofChars (chars : List Char) :
    String.fromUTF8? ((ofChars chars).utf8?.getD .empty) = some (String.ofList chars) := by
  simp only [utf8?, string?, chars?_ofChars, Option.map_some, Option.getD_some, String.fromUTF8?]
  exact (dif_pos (String.ofList chars).isValidUTF8).trans rfl

/-- What is written in UTF-8 is read as it was, if it has no line ends but line feeds. -/
theorem read_utf8 {text : Text} (h : text.isEncodable = true)
    (hreturn : CodePoint.char '\r' ∉ text) :
    ∃ written, String.fromUTF8? (text.utf8?.getD .empty) = some written ∧
      ofChars (unifyNewlines written.toList) = text := by
  obtain ⟨chars, hchars⟩ := exists_chars?_of_isEncodable h
  obtain rfl := chars?_eq_some.mp hchars
  have hnot : '\r' ∉ chars := fun hm => hreturn (List.mem_map_of_mem hm)
  refine ⟨String.ofList chars, fromUTF8?_ofChars chars, ?_⟩
  rw [String.toList_ofList, unifyNewlines_of_not_mem hnot]

theorem return_not_mem_join {lines : List Text} (h : ∀ line ∈ lines, line.IsLine) :
    CodePoint.char '\r' ∉ joinWith "\n" lines ++ "\n" := by
  have hfeed : CodePoint.char '\r' ∉ ofString "\n" := by decide
  intro hm
  rcases List.mem_append.mp hm with hm | hm
  · rcases mem_or_mem_of_mem_joinWith hm with hm | ⟨line, hline, hm⟩
    · exact hfeed hm
    · exact (h line hline).no_return hm
  · exact hfeed hm

/-- The lines that are read from a file with these characters. -/
def linesRead (chars : List Char) : List Text :=
  trimmedLines (ofChars (unifyNewlines chars))

theorem trimmedLines_append_feed (text rest : Text) :
    trimmedLines (text ++ .char '\n' :: rest) = trimmedLines text ++ trimmedLines rest := by
  simp [trimmedLines, splitOn_append_cons]

/-- A line feed ends a line, be it alone or behind a carriage return. -/
theorem unifyNewlines_append_feed (chars rest : List Char) :
    unifyNewlines (chars ++ '\n' :: rest) = unifyNewlines chars ++ '\n' :: unifyNewlines rest ∨
      ∃ before, unifyNewlines chars = before ++ ['\n'] ∧
        unifyNewlines (chars ++ '\n' :: rest) = before ++ '\n' :: unifyNewlines rest := by
  fun_induction unifyNewlines chars with
  | case1 => exact .inl (by simp [unifyNewlines])
  | case2 cs ih =>
    rcases ih with ih | ⟨before, hbefore, ih⟩
    · exact .inl (by simp [unifyNewlines, ih])
    · exact .inr ⟨'\n' :: before, by simp [hbefore], by simp [unifyNewlines, ih]⟩
  | case3 c cs hnot ih =>
    cases cs with
    | nil =>
      by_cases hc : c = '\r'
      · exact .inr ⟨[], by simp [unifyNewlines, hc], by simp [unifyNewlines, hc]⟩
      · exact .inl (by simp [unifyNewlines, hc])
    | cons d ds =>
      have hstep (tail : List Char) : unifyNewlines (c :: d :: tail) =
          (if c = '\r' then '\n' else c) :: unifyNewlines (d :: tail) := by
        rw [unifyNewlines]
        rintro _ rfl he
        exact hnot ds rfl (by rw [(List.cons.inj he).1])
      simp only [List.cons_append, hstep] at ih ⊢
      rcases ih with ih | ⟨before, hbefore, ih⟩
      · exact .inl (by simp [ih])
      · exact .inr ⟨_ :: before, by rw [hbefore]; rfl, by rw [ih]; rfl⟩

theorem linesRead_append_feed (chars rest : List Char) :
    linesRead (chars ++ '\n' :: rest) = linesRead chars ++ linesRead rest := by
  have hnone : trimmedLines [] = [] := rfl
  have hcut (before after : List Char) : trimmedLines (ofChars (before ++ '\n' :: after)) =
      trimmedLines (ofChars before) ++ trimmedLines (ofChars after) := by
    rw [← trimmedLines_append_feed]
    simp [ofChars]
  rcases unifyNewlines_append_feed chars rest with h | ⟨before, hbefore, h⟩
  · rw [linesRead, h, hcut]
    rfl
  · rw [linesRead, h, hcut, linesRead, hbefore, hcut]
    simp [ofChars, hnone, linesRead]

/-- The lines of joined texts are those of each of them. -/
theorem linesRead_join (parts : List (List Char)) :
    ∃ chars, joinWith "\n" (parts.map ofChars) ++ "\n" = ofChars chars ∧
      linesRead chars = parts.flatMap linesRead := by
  have hfeed : ofString "\n" = [CodePoint.char '\n'] := rfl
  have hnone : linesRead [] = [] := rfl
  rw [hfeed]
  induction parts with
  | nil => exact ⟨['\n'], rfl, rfl⟩
  | cons part parts ih =>
    obtain ⟨rest, hrest, hlines⟩ := ih
    cases parts with
    | nil =>
      refine ⟨part ++ ['\n'], by simp [joinWith, ofChars], ?_⟩
      rw [linesRead_append_feed, hnone]
      simp
    | cons next parts =>
      refine ⟨part ++ '\n' :: rest, ?_, ?_⟩
      · rw [List.map_cons, List.map_cons, joinWith_cons_cons, List.append_assoc, ← List.map_cons,
          hrest]
        simp [ofChars]
      · rw [linesRead_append_feed, hlines]
        rfl

theorem exists_map_ofChars {texts : List Text} (h : ∀ text ∈ texts, text.isEncodable = true) :
    ∃ parts : List (List Char), texts = parts.map ofChars := by
  induction texts with
  | nil => exact ⟨[], rfl⟩
  | cons text texts ih =>
    obtain ⟨htext, htexts⟩ := List.forall_mem_cons.mp h
    obtain ⟨chars, hchars⟩ := exists_chars?_of_isEncodable htext
    obtain ⟨parts, rfl⟩ := ih htexts
    exact ⟨chars :: parts, by rw [chars?_eq_some.mp hchars]; rfl⟩

end Text

-- ---------------------------------------------------------------------------
-- Reports
-- ---------------------------------------------------------------------------

theorem Record.line_ne_nil (record : Record) : record.line ≠ [] := by
  simp [line]

namespace Plan

variable {tree tree' : FileTree} {path : Path}

theorem isLine_of_mem_recordsAt {line : Text} (h : line ∈ recordsAt tree path) :
    line.IsLine ∧ line ≠ [] := by
  simp only [recordsAt] at h
  split at h
  · refine Text.isLine_of_mem_trimmedLines (fun hm => ?_) h
    obtain ⟨c, hc, he⟩ := List.mem_map.mp hm
    obtain rfl := CodePoint.char.inj he
    exact Text.return_not_mem_unifyNewlines _ hc
  · cases h

/-- The records of a report that was put in place. -/
theorem recordsAt_place? {records : List Text} (h : ∀ line ∈ records, line.IsLine ∧ line ≠ [])
    (hencodable : (VisibilityReport.render records).isEncodable = true)
    (hplaced :
      tree.place? path ((VisibilityReport.render records).utf8?.getD .empty) = some tree') :
    recordsAt tree' path = records := by
  obtain ⟨written, hwritten, htext⟩ := Text.read_utf8 hencodable
    (Text.return_not_mem_join fun line hm => (h line hm).1)
  simp only [recordsAt, FileTree.read?_place? hplaced, Option.bind_some, hwritten, htext]
  exact Text.trimmedLines_join h

/-- A report that was put in place reads as the lines of its records. -/
theorem mem_recordsAt_place? {records : List Text} {line : Text}
    (hencodable : (VisibilityReport.render records).isEncodable = true)
    (hplaced :
      tree.place? path ((VisibilityReport.render records).utf8?.getD .empty) = some tree') :
    line ∈ recordsAt tree' path ↔
      ∃ chars, Text.ofChars chars ∈ records ∧ line ∈ Text.linesRead chars := by
  have hrecords : ∀ record ∈ records, record.isEncodable = true := by
    intro record hm
    rw [Text.isEncodable, List.all_eq_true] at hencodable ⊢
    exact fun c hc => hencodable c
      (List.mem_append_left _ ((Text.infix_joinWith _ hm).subset hc))
  obtain ⟨parts, rfl⟩ := Text.exists_map_ofChars hrecords
  obtain ⟨chars, hchars, hlines⟩ := Text.linesRead_join parts
  rw [VisibilityReport.render, hchars] at hplaced
  have hread : recordsAt tree' path = Text.linesRead chars := by
    simp only [recordsAt, FileTree.read?_place? hplaced, Option.bind_some, Text.fromUTF8?_ofChars,
      String.toList_ofList]
    rfl
  rw [hread, hlines, List.mem_flatMap]
  constructor
  · rintro ⟨part, hm, hline⟩
    exact ⟨part, List.mem_map_of_mem hm, hline⟩
  · rintro ⟨part, hm, hline⟩
    obtain ⟨other, ho, he⟩ := List.mem_map.mp hm
    exact ⟨other, ho, Text.ofChars_injective he ▸ hline⟩

end Plan

namespace ReportWriter

variable {writer writer' : ReportWriter} {tree tree' : FileTree}

/-- A report that was written reads as what it held and what was pending, each record once. -/
theorem IsFlushable.reads (h : writer.IsFlushable tree tree')
    (hlines : ∀ violation ∈ writer.pending, violation.record.line.IsLine) :
    tree'.IsReadable writer.path ∧ Plan.recordsAt tree' writer.path =
      VisibilityReport.merge (Plan.recordsAt tree writer.path).eraseDups
        (writer.pending.map (·.record.line)) := by
  have hall : ∀ line ∈ VisibilityReport.merge (Plan.recordsAt tree writer.path).eraseDups
      (writer.pending.map (·.record.line)), line.IsLine ∧ line ≠ [] := by
    intro line hm
    rcases List.mem_append.mp (List.mem_eraseDups.mp hm) with hm | hm
    · exact Plan.isLine_of_mem_recordsAt (List.mem_eraseDups.mp hm)
    · obtain ⟨violation, hv, rfl⟩ := List.mem_map.mp hm
      exact ⟨hlines violation hv, violation.record.line_ne_nil⟩
  obtain ⟨location, hplaced⟩ := FileTree.placed_of_place? h.placed
  obtain ⟨written, hwritten, -⟩ := Text.read_utf8 h.encodable
    (Text.return_not_mem_join fun line hm => (hall line hm).1)
  refine ⟨.inr ⟨?_, _, written, FileTree.read?_place? h.placed, hwritten⟩,
    Plan.recordsAt_place? hall h.encodable h.placed⟩
  simp [FileTree.isThere?, hplaced.leads, hplaced.at_eq]

/-- A report that was written is written again as it is, be it with fewer violations. -/
theorem IsFlushable.again (h : writer.IsFlushable tree tree') (hpath : writer'.path = writer.path)
    (hpending : writer'.pending ⊆ writer.pending)
    (hlines : ∀ violation ∈ writer.pending, violation.record.line.IsLine) :
    writer'.IsFlushable tree' tree' := by
  let old := (Plan.recordsAt tree writer.path).eraseDups
  let all := VisibilityReport.merge old (writer.pending.map (·.record.line))
  obtain ⟨hreadable, hrecords⟩ := h.reads hlines
  -- all records are there, so the text is that of the report before
  have hsubset : writer'.pending.map (·.record.line) ⊆ all := fun line hm =>
    List.mem_eraseDups.mpr (List.mem_append_right _ (List.map_subset _ hpending hm))
  have htext : Plan.reportText tree' writer'.path writer'.pending =
      Plan.reportText tree writer.path writer.pending := by
    rw [hpath]
    have hmerge : VisibilityReport.merge all.eraseDups (writer'.pending.map (·.record.line)) =
        all := by
      rw [show all.eraseDups = all from eraseDups_eraseDups _, VisibilityReport.merge,
        eraseDups_append_of_subset hsubset]
      exact eraseDups_eraseDups _
    simp only [Plan.reportText, hrecords]
    exact congrArg VisibilityReport.render hmerge
  refine ⟨hpath ▸ h.path, hpath ▸ h.parent, hpath ▸ hreadable, htext ▸ h.encodable, ?_⟩
  rw [htext, hpath]
  exact FileTree.place?_again h.placed

/-- Violations that are in the report already leave it as it is. -/
theorem flush_again {world world' later : World} {written : Option Path}
    {after again : ReportWriter} (h : Ends flush writer world written after world')
    (hfiles : later.files = world'.files)
    (hpath : again.path = writer.path) (hpending : again.pending ⊆ writer.pending)
    (hlines : ∀ violation ∈ writer.pending, violation.record.line.IsLine) :
    ∃ written' later', Ends flush again later written' after later' ∧
      later'.files = world'.files := by
  have hafter : after = { again with pending := [] } := by rw [(ends_flush h).1, hpath]
  by_cases hnil : again.pending = []
  · refine ⟨none, later, (ends_flush_of_nil hnil).mpr ⟨rfl, ?_, rfl⟩, hfiles⟩
    rw [hafter, ← hnil]
  · have hne : writer.pending ≠ [] := fun he => hnil (List.subset_nil.mp (he ▸ hpending))
    obtain ⟨-, -, files, hflushable, rfl⟩ := (ends_flush_of_ne_nil hne).mp h
    have hagain := hflushable.again hpath hpending hlines
    exact ⟨_, _, (ends_flush_of_ne_nil hnil).mpr ⟨rfl, hafter, files, hfiles ▸ hagain, rfl⟩, rfl⟩

end ReportWriter

end PreviewShots
