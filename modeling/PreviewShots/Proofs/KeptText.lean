import PreviewShots.Proofs.SourceFix

/-!
# What a fix leaves of a text

A text that is written is written as it was read, with line feeds for the other line ends, and
the keyword that is replaced may be the end of a longer word. So a fix leaves all but whole
keywords of a file as they were if it does not write the file, or if no carriage return is in
it and no longer word is cut, and never otherwise (`run_keepsRest_iff`).
-/

open PreviewShots.Task

namespace PreviewShots.VisibilityFix

open PreviewShots.Text

variable {σ : Type} {state : σ} {world : World} {report : Path} {root : Label}
  {location : Location} {bytes : ByteArray} {content content' : String} {names : List Text}

theorem readAs_of_not_mem (h : '\r' ∉ content.toList) :
    readAs content = ofChars content.toList := by
  rw [readAs, unifyNewlines_of_not_mem h]

/-- Of the text nothing but whole keywords gave way. -/
def KeepsRest (content content' : String) : Prop :=
  Reworded WordStart none (ofChars content.toList) (ofChars content'.toList)

theorem KeepsRest.return_mem (h : KeepsRest content content') (hreturn : '\r' ∈ content.toList) :
    '\r' ∈ content'.toList := by
  have hkept := h.mem (List.mem_map_of_mem hreturn) (by decide)
  simpa [ofChars] using hkept

/-- What a fix writes into a file is read as the text that was to be written. -/
theorem rewrites_fixedBytes (names : List Text) (h : String.fromUTF8? bytes = some content) :
    fixedBytes names bytes = bytes ∨ ∃ content',
      String.fromUTF8? (fixedBytes names bytes) = some content' ∧ '\r' ∉ content'.toList ∧
      Reworded Anywhere none (readAs content) (ofChars content'.toList) := by
  rw [fixedBytes_of_content h]
  split
  · exact .inl rfl
  · have hreturn := return_not_mem_fixText names (return_not_mem_readAs content)
    obtain ⟨chars, hchars⟩ :=
      exists_chars?_of_isEncodable (isEncodable_fixText names (isEncodable_readAs content))
    have htext := chars?_eq_some.mp hchars
    refine .inr ⟨String.ofList chars, ?_, ?_, ?_⟩
    · rw [htext, fromUTF8?_ofChars]
    · rw [htext] at hreturn
      simpa [ofChars] using hreturn
    · rw [String.toList_ofList, ← htext]
      exact reworded_fixText names _ none

theorem keepsRest_iff_of_reworded (hreturn : '\r' ∉ content'.toList)
    (h : Reworded Anywhere none (readAs content) (ofChars content'.toList)) :
    KeepsRest content content' ↔ '\r' ∉ content.toList ∧
      ¬ SplitsWord (ofChars content.toList) (ofChars content'.toList) := by
  by_cases hc : '\r' ∈ content.toList
  · exact iff_of_false (fun hkeeps => hreturn (hkeeps.return_mem hc)) fun hnone => hnone.1 hc
  · rw [readAs_of_not_mem hc] at h
    rw [and_iff_right hc]
    exact h.iff_not_splitsWord

/-- Whatever becomes of a run, a file that is not the report is as a fix leaves it, if the medium
takes it. -/
theorem at?_run (report : Path) (root : Label) (state : σ) (world : World) {location : Location}
    (htakes : world.files.TakesFixes location)
    (hapart : world.files.locate report ≠ .found location) :
    ∃ names, (run (m := StateM World) report root state world).2.files.at? location =
      (world.files.at? location).map (Entry.fixed names) := by
  have hsame {files : FileTree} (h : files = world.files) :
      ∃ names, files.at? location = (world.files.at? location).map (Entry.fixed names) :=
    ⟨[], by rw [h, funext Entry.fixed_nil, Option.map_id']⟩
  rcases ends_or_fails (run report root) state world with ⟨_, _, world', h⟩ | ⟨_, _, world', h⟩
  · have hworld : (run (m := StateM World) report root state world).2 = world' := by rw [h]
    rw [hworld]
    obtain ⟨-, hfiles⟩ | ⟨names, between, hfixes, hremove, -⟩ := fixes_of_ends_run h
    · exact hsame hfiles
    · obtain ⟨other, hlocate, hd, hleft⟩ := FileTree.remove?_eq_some hremove
      have hne : (location == other) = false := by
        refine beq_false_of_ne fun he => hapart ?_
        rw [← hfixes.locate report, hlocate, he]
      refine ⟨names location, ?_⟩
      rw [hleft, FileTree.at?_erase (FileTree.isAbove_of_not_isDirectory hd), hne]
      exact hfixes.entries location
  · have hworld : (run (m := StateM World) report root state world).2 = world' := by rw [h]
    rw [hworld]
    obtain ⟨hfiles, -⟩ | ⟨_, -, hstops⟩ := stops_of_fails_run h
    · exact hsame hfiles
    generalize world'.files = left at hstops ⊢
    cases hstops with
    | barred _ _ hfixes => exact ⟨_, hfixes.entries location⟩
    | broken hbreaks =>
      obtain @⟨between, other, part, hfixes, hnot, hd⟩ := hbreaks
      have hne : (location == other) = false := beq_false_of_ne fun he => hnot (he ▸ htakes)
      have hother : (between.set other (.file part)).at? location = between.at? location := by
        rw [FileTree.at?_set (FileTree.isAbove_of_not_isDirectory hd), hne]
        rfl
      exact ⟨_, hother.trans (hfixes.entries location)⟩

/-- Whatever becomes of a run, a text file that is not the report and that the medium takes is a
text file still, and all but whole keywords of it is what it was if and only if it was not
written, or it had no carriage return in it and no longer word was cut. -/
theorem run_keepsRest_iff (hfile : world.files.at? location = some (.file bytes))
    (hcontent : String.fromUTF8? bytes = some content)
    (htakes : world.files.TakesFixes location)
    (hapart : world.files.locate report ≠ .found location) :
    ∃ bytes' content',
      (run (m := StateM World) report root state world).2.files.at? location =
        some (.file bytes') ∧
      String.fromUTF8? bytes' = some content' ∧
      (bytes' = bytes ∨ Reworded Anywhere none (readAs content) (ofChars content'.toList)) ∧
      (KeepsRest content content' ↔ bytes' = bytes ∨ '\r' ∉ content.toList ∧
        ¬ SplitsWord (ofChars content.toList) (ofChars content'.toList)) := by
  obtain ⟨names, hleft⟩ := at?_run report root state world htakes hapart
  generalize (run (m := StateM World) report root state world).2.files = left at hleft ⊢
  replace hleft : left.at? location = some (.file (fixedBytes names bytes)) := by
    rw [hleft, hfile]
    rfl
  rcases rewrites_fixedBytes names hcontent with hsame | ⟨content', hread, hreturn, h⟩
  · rw [hsame] at hleft
    exact ⟨bytes, content, hleft, hcontent, .inl rfl,
      iff_of_true (.refl _ _ _) (.inl rfl)⟩
  · refine ⟨_, content', hleft, hread, .inr h, ?_⟩
    by_cases hsame : fixedBytes names bytes = bytes
    · rw [hsame] at hread
      obtain rfl : content' = content := Option.some.inj (hread.symm.trans hcontent)
      exact iff_of_true (.refl _ _ _) (.inl hsame)
    · rw [or_iff_right hsame]
      exact keepsRest_iff_of_reworded hreturn h

/-- A report of one line, and the file it names. -/
def darkWorld (content : String) : World :=
  .ofFiles (.ofEntries [([Text.ofString "report.txt"], .file "Cards.kt|Dark\n".toUTF8),
    ([Text.ofString "Cards.kt"], .file content.toUTF8)])

def darkLocation : Location :=
  FileTree.home ++ [Text.ofString "Cards.kt"]

/-- A text of whole words and line feeds. -/
theorem dark_rest_kept :
    let before := "private fun Dark() \x7b\x7d\n"
    ∃ bytes' content',
      (run (m := StateM World) (Path.parse "report.txt") .null () (darkWorld before)).2.files.at?
        darkLocation = some (.file bytes') ∧
      String.fromUTF8? bytes' = some content' ∧ bytes' ≠ before.toUTF8 ∧ KeepsRest before content' ∧
      ¬ SplitsWord (ofChars before.toList) (ofChars content'.toList) := by
  intro before
  let after := "internal fun Dark() \x7b\x7d\n"
  have hkeeps : KeepsRest before after := by
    have hbefore : ofChars before.toList = keyword ++ " fun Dark() \x7b\x7d\n" := by decide +kernel
    have hafter : ofChars after.toList = replacement ++ " fun Dark() \x7b\x7d\n" := by
      decide +kernel
    rw [KeepsRest, hbefore, hafter]
    exact .replace rfl (by decide +kernel) (.refl _ _ _)
  have hfixed : (run (m := StateM World) (Path.parse "report.txt") .null ()
      (darkWorld before)).2.files.read? (Path.parse "Cards.kt") = some after.toUTF8 := by
    decide +kernel
  obtain ⟨bytes', content', hleft, hread, -, hiff⟩ :
      ∃ bytes' content', (run (m := StateM World) (Path.parse "report.txt") .null ()
        (darkWorld before)).2.files.at? darkLocation = some (.file bytes') ∧ _ :=
    run_keepsRest_iff rfl (fromUTF8?_toUTF8 before) (fun _ _ _ => rfl) (by decide +kernel)
  obtain rfl : bytes' = after.toUTF8 := by
    obtain ⟨location, hlocate, hfile⟩ := FileTree.read?_eq_some.mp hfixed
    obtain rfl : location = darkLocation := by
      have hcards : (run (m := StateM World) (Path.parse "report.txt") .null ()
          (darkWorld before)).2.files.locate (Path.parse "Cards.kt") = .found darkLocation := by
        decide +kernel
      exact FileTree.Lead.found.inj (hlocate.symm.trans hcards)
    cases hleft.symm.trans hfile
    rfl
  obtain rfl : content' = after := Option.some.inj (hread.symm.trans (fromUTF8?_toUTF8 after))
  have hne : after.toUTF8 ≠ before.toUTF8 := by decide +kernel
  exact ⟨_, after, hleft, hread, hne, hkeeps, ((hiff.mp hkeeps).resolve_left hne).2⟩

/-- A line that ends in a carriage return and a line feed ends in a line feed afterwards. -/
theorem dark_return_lost :
    let before := "private fun Dark() \x7b\x7d\r\n"
    let after := "internal fun Dark() \x7b\x7d\n"
    ∃ total state' world',
      Ends (run (Path.parse "report.txt") .null) () (darkWorld before) total state' world' ∧
      world'.files.read? (Path.parse "Cards.kt") = some after.toUTF8 ∧
      ¬ KeepsRest before after := by
  intro before after
  obtain ⟨total, state', world', hends⟩ :=
    exists_ends (run (Path.parse "report.txt") .null) () (darkWorld before) (by decide +kernel)
  have hread : (run (m := StateM World) (Path.parse "report.txt") .null ()
      (darkWorld before)).2.files.read? (Path.parse "Cards.kt") = some after.toUTF8 := by
    decide +kernel
  rw [hends] at hread
  exact ⟨total, state', world', hends, hread, fun hkeeps =>
    absurd (hkeeps.return_mem (by decide)) (by decide)⟩

end PreviewShots.VisibilityFix
