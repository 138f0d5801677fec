import PreviewShots.Proofs.Command
import PreviewShots.Proofs.Dump.Defects

/-!
# Dumps that are refused

A dump is read, or the first of its defects is reported, unless that is a value of a kind
that has no meaning where it stands: there the reading fails. The loading of a file fails
there as well, and else only at a content that is no text or at an integer that is too long
(`Command.refusal_reported_iff`). Nesting depth is not modelled: a value may be nested as deep
as it likes, and that the reader of a text or of a dump runs out of stack at some depth, a failure
that is not reported either, is left out.
-/

open PreviewShots.Task

namespace PreviewShots

variable {σ : Type} {state state' : σ} {world world' : World} {fault : Fault}

namespace Command

variable {path : Text}

/-- The content of the file that the path names, if there is such a file. -/
def bytesAt? (tree : FileTree) (path : Text) : Option ByteArray :=
  if !Path.namesFile path || FileTree.pathLimit ≤ path.byteSize then none
  else tree.read? (Path.parse path)

/-- The file that the path names is text, if there is one. -/
def IsTextAt (tree : FileTree) (path : Text) : Prop :=
  ∀ bytes, bytesAt? tree path = some bytes → (String.fromUTF8? bytes).isSome

theorem charsAt?_eq (tree : FileTree) (path : Text) : charsAt? tree path =
    ((bytesAt? tree path).bind String.fromUTF8?).map fun text => Text.unifyNewlines text.toList := by
  simp only [charsAt?, bytesAt?]
  split <;> rfl

theorem isTextAt_of_charsAt? {tree : FileTree} {chars : List Char}
    (h : charsAt? tree path = some chars) : IsTextAt tree path := by
  intro bytes hbytes
  rw [charsAt?_eq, hbytes, Option.map_eq_some_iff] at h
  obtain ⟨text, htext, -⟩ := h
  exact Option.isSome_of_eq_some htext

theorem fails_readChars? (hpath : pathFault? (Path.parse path) = none) :
    Fails (readChars? path) state world fault state' world' ↔
      fault = .notUtf8 ∧ state' = state ∧ world' = world ∧ ¬ IsTextAt world.files path := by
  simp only [readChars?, fails_bind, fails_checkPath, ends_checkPath, hpath, reduceCtorEq, false_and,
    false_or, true_and]
  rw [IsTextAt, bytesAt?]
  split
  · simp [fails_pure]
  next hnames =>
  simp only [fails_bind, fails_tryCatch, fails_return, fails_readChars, hpath, reduceCtorEq,
    false_or, true_and, and_false, exists_false, or_false]
  constructor
  · rintro ⟨_, _, _, ⟨rfl, rfl⟩, ⟨cause, _, _, ⟨rfl, rfl, hcause⟩, hcatch⟩ |
      ⟨found, _, _, -, hrest⟩⟩
    · rcases hcause with ⟨rfl, -⟩ | ⟨rfl, bytes, hbytes, hnone⟩
      · exact absurd hcatch fails_return
      · simp only [fails_bind, fails_throw, ends_throw, false_and, exists_false, or_false] at hcatch
        obtain ⟨rfl, rfl, rfl⟩ := hcatch
        exact ⟨rfl, rfl, rfl, fun htext => by simpa [hnone] using htext bytes hbytes⟩
    · cases found <;> exact absurd hrest fails_pure
  · rintro ⟨rfl, rfl, rfl, hnot⟩
    obtain ⟨bytes, hbytes, hnone⟩ : ∃ bytes, world'.files.read? (Path.parse path) = some bytes ∧
        String.fromUTF8? bytes = none := by
      simpa using hnot
    refine ⟨(), _, _, ⟨rfl, rfl⟩,
      .inl ⟨.notUtf8, _, _, ⟨rfl, rfl, .inr ⟨rfl, bytes, hbytes, hnone⟩⟩, ?_⟩⟩
    simp [fails_throw]

theorem exists_ends_readChars? (hpath : pathFault? (Path.parse path) = none)
    (h : IsTextAt world.files path) :
    ∃ found state' world', Ends (readChars? path) state world found state' world' :=
  exists_ends_iff.mpr fun _ _ _ hfails => ((fails_readChars? hpath).mp hfails).2.2.2 h

theorem fails_readJson (hpath : pathFault? (Path.parse path) = none) :
    Fails (readJson path) state world fault state' world' ↔ state' = state ∧ world' = world ∧
      (fault = .notUtf8 ∧ ¬ IsTextAt world.files path ∨
        ∃ chars digits, charsAt? world.files path = some chars ∧
          Json.parse (some Fault.digitLimit) chars = .error (.longInteger digits) ∧
          fault = .longInteger digits) := by
  simp only [readJson, fails_bind, fails_readChars? hpath]
  constructor
  · rintro (⟨rfl, rfl, rfl, hnot⟩ | ⟨found, _, _, hread, hparse⟩)
    · exact ⟨rfl, rfl, .inl ⟨rfl, hnot⟩⟩
    obtain ⟨hfound, rfl, rfl⟩ := ends_readChars? hread
    split at hparse
    · exact absurd hparse fails_pure
    next chars =>
    split at hparse
    · exact absurd hparse fails_pure
    · exact absurd hparse fails_pure
    · next digits hdigits =>
      obtain ⟨rfl, rfl, rfl⟩ := fails_throw.mp hparse
      exact ⟨rfl, rfl, .inr ⟨chars, digits, hfound.symm, hdigits, rfl⟩⟩
  · rintro ⟨rfl, rfl, ⟨rfl, hnot⟩ | ⟨chars, digits, hchars, hdigits, rfl⟩⟩
    · exact .inl ⟨rfl, rfl, rfl, hnot⟩
    · obtain ⟨found, _, _, hread⟩ := exists_ends_readChars? hpath (isTextAt_of_charsAt? hchars)
      obtain ⟨rfl, rfl, rfl⟩ := ends_readChars? hread
      refine .inr ⟨_, _, _, hread, ?_⟩
      simp [hchars, hdigits, fails_throw]

theorem exists_ends_readJson (hpath : pathFault? (Path.parse path) = none) {value : Json}
    (h : valueAt? world.files path = some value) :
    ∃ found state' world', Ends (readJson path) state world found state' world' := by
  obtain ⟨chars, hchars, hvalue⟩ := Option.bind_eq_some_iff.mp h
  refine exists_ends_iff.mpr fun fault after later hfails => ?_
  obtain ⟨-, -, ⟨-, hnot⟩ | ⟨other, digits, hother, hdigits, -⟩⟩ := (fails_readJson hpath).mp hfails
  · exact hnot (isTextAt_of_charsAt? hchars)
  · obtain rfl : other = chars := Option.some.inj (hother.symm.trans hchars)
    simp [hdigits, Except.toOption] at hvalue

theorem fails_tableOf_of_table {dump : Json} (h : Dump.table dump = .error fault) :
    Fails (tableOf dump) state world fault state world :=
  fails_bind.mpr (.inl (fails_ofExcept.mpr ⟨h, rfl, rfl⟩))

theorem fails_loadTable (hpath : pathFault? (Path.parse path) = none) :
    Fails (loadTable path) state world fault state' world' ↔
      Fails (readJson path) state world fault state' world' ∨ state' = state ∧ world' = world ∧
        fault = .illTyped ∧ ∃ dump, valueAt? world.files path = some dump ∧
          (Dump.defects dump).head? = some .misplaced := by
  simp only [loadTable, fails_bind]
  refine or_congr_right ⟨?_, ?_⟩
  · rintro ⟨found, _, _, hread, hload⟩
    obtain ⟨hfound, rfl, rfl⟩ := ends_readJson hread
    split at hload
    · simp only [fails_bind, fails_notify, fails_pure, and_false, exists_false, or_false] at hload
    next dump =>
    simp only [fails_bind, fails_tryCatch, fails_return, and_false, exists_false, or_false] at hload
    rcases hload with ⟨cause, _, _, hfails, hcatch⟩ | ⟨answer, _, _, -, hrest⟩
    · obtain ⟨htable, rfl, rfl⟩ := fails_tableOf hfails
      obtain ⟨defect, hfirst, rfl⟩ := (Dump.table_stopsAt dump).error_iff.mp htable
      cases defect with
      | misplaced =>
        simp only [Dump.Defect.fault, fails_bind, fails_throw, ends_throw, false_and, exists_false,
          or_false] at hcatch
        obtain ⟨rfl, rfl, rfl⟩ := hcatch
        exact ⟨rfl, rfl, rfl, dump, hfound.symm, hfirst⟩
      | malformed cause =>
        simp only [Dump.Defect.fault, fails_bind, fails_notify, fails_return, and_false,
          exists_false, or_false] at hcatch
    · cases answer <;> exact absurd hrest fails_pure
  · rintro ⟨rfl, rfl, rfl, dump, hdump, hfirst⟩
    obtain ⟨found, _, _, hread⟩ := exists_ends_readJson hpath hdump
    obtain ⟨rfl, rfl, rfl⟩ := ends_readJson hread
    have htable : Dump.table dump = .error .illTyped :=
      (Dump.table_stopsAt dump).error_iff.mpr ⟨_, hfirst, rfl⟩
    refine ⟨_, _, _, hread, ?_⟩
    rw [hdump]
    simp only [fails_bind, fails_tryCatch, fails_return, and_false, exists_false, or_false]
    refine .inl ⟨.illTyped, _, _, fails_tableOf_of_table htable, ?_⟩
    simp [fails_throw]

/-- Nothing but what is reported keeps the file that the path names from being loaded. -/
structure IsLoadableAt (tree : FileTree) (path : Text) : Prop where
  text : IsTextAt tree path
  integers : ∀ chars, charsAt? tree path = some chars →
    ∀ digits, Json.parse (some Fault.digitLimit) chars ≠ .error (.longInteger digits)
  kinds : ∀ dump, valueAt? tree path = some dump →
    (Dump.defects dump).head? ≠ some .misplaced

theorem exists_ends_loadTable_iff (hpath : pathFault? (Path.parse path) = none) (state : σ)
    (world : World) :
    (∃ found state' world', Ends (loadTable path) state world found state' world') ↔
      IsLoadableAt world.files path := by
  simp only [exists_ends_iff, fails_loadTable hpath, fails_readJson hpath]
  constructor
  · intro h
    refine ⟨?_, fun chars hchars digits hdigits => ?_, fun dump hdump hfirst => ?_⟩
    · by_contra hnot
      exact h _ _ _ (.inl ⟨rfl, rfl, .inl ⟨rfl, hnot⟩⟩)
    · exact h _ _ _ (.inl ⟨rfl, rfl, .inr ⟨chars, digits, hchars, hdigits, rfl⟩⟩)
    · exact h _ _ _ (.inr ⟨rfl, rfl, rfl, dump, hdump, hfirst⟩)
  · rintro hfile fault state' world' (⟨-, -, ⟨-, hnot⟩ | ⟨chars, digits, hchars, hdigits, -⟩⟩ |
      ⟨-, -, -, dump, hdump, hfirst⟩)
    · exact hnot hfile.text
    · exact hfile.integers chars hchars digits hdigits
    · exact hfile.kinds dump hdump hfirst

theorem reported_iff_head?_ne (dump : Json) :
    ((∃ table, Dump.table dump = .ok table) ∨ ∃ cause, Dump.table dump = .error (.dump cause)) ↔
      (Dump.defects dump).head? ≠ some .misplaced := by
  have hstops := Dump.table_stopsAt dump
  rw [hstops.exists_ok_iff]
  simp only [Dump.table_eq_dump_iff]
  rcases Dump.defects dump with _ | ⟨_ | cause, rest⟩ <;> simp

/-- A dump is read if nothing is wrong with it, and else the first of its defects stops the
reading; it is reported unless it is a value of a wrong kind. The loading of a file ends with
a table or without one just if the file is loadable. -/
theorem refusal_reported_iff (hpath : pathFault? (Path.parse path) = none) (state : σ)
    (world : World) :
    (∀ dump, ((∃ table, Dump.table dump = .ok table) ↔ Dump.defects dump = []) ∧
      (∀ cause, Dump.table dump = .error (.dump cause) ↔
        (Dump.defects dump).head? = some (.malformed cause)) ∧
      (((∃ table, Dump.table dump = .ok table) ∨
          ∃ cause, Dump.table dump = .error (.dump cause)) ↔
        (Dump.defects dump).head? ≠ some .misplaced)) ∧
    ((∃ found state' world', Ends (loadTable path) state world found state' world') ↔
      IsLoadableAt world.files path) :=
  ⟨fun dump => ⟨(Dump.table_stopsAt dump).exists_ok_iff, fun _ => Dump.table_eq_dump_iff,
    reported_iff_head?_ne dump⟩, exists_ends_loadTable_iff hpath state world⟩

/-- The entry without a path comes before the one of a wrong kind. -/
theorem pathless_file_reported :
    let world := holding [("dump.json", "\x7b\"files\": [\x7b\x7d, 5]\x7d")]
    pathFault? (Path.parse "dump.json") = none ∧ ∃ found after later,
      Ends (loadTable "dump.json") () world found after later := by
  intro world
  have htext : (bytesAt? world.files "dump.json").all
      (fun bytes => (String.fromUTF8? bytes).isSome) = true := by decide +kernel
  have hread : (charsAt? world.files "dump.json").all (fun chars =>
      (Json.parse (some Fault.digitLimit) chars).toOption.isSome) = true := by decide +kernel
  have hkinds : (valueAt? world.files "dump.json").all (fun dump =>
      (Dump.defects dump).head?.all (!·.isMisplaced)) = true := by decide +kernel
  refine ⟨by decide, (refusal_reported_iff (by decide) () world).2.mpr ⟨?_, ?_, ?_⟩⟩
  · intro bytes hbytes
    simpa [hbytes] using htext
  · intro chars hchars digits hdigits
    simp [hchars, hdigits, Except.toOption] at hread
  · intro dump hdump hfirst
    simp [hdump, hfirst, Dump.Defect.isMisplaced] at hkinds

def numberedVisibility : Json :=
  .object [⟨"files", .array [.object [⟨"path", .string "Cards.kt"⟩,
    ⟨"declarations", .array [.object [⟨"name", .string "Card"⟩, ⟨"visibility", .int 5⟩]]⟩]]⟩]

/-- A number in the place of a visibility is no malformed entry to the reader. -/
theorem numbered_visibility_unreported :
    Dump.table numberedVisibility = .error .illTyped ∧
      ¬ ((∃ table, Dump.table numberedVisibility = .ok table) ∨
        ∃ cause, Dump.table numberedVisibility = .error (.dump cause)) := by
  have htable : Dump.table numberedVisibility = .error .illTyped := rfl
  simp [htable]

end Command

end PreviewShots
