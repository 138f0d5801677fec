import Mathlib.Data.List.Nodup
import PreviewShots.Proofs.UnitWriter

/-!
# Units that are passed over

A writer is asked for one unit after another. It tells them apart by their names alone, in
which the package and the file run together. So a unit is passed over when its name is taken,
be it by a unit of another source file (`skipped_iff_taken`).
-/

open PreviewShots.Task

namespace PreviewShots

/-- A unit that was asked for: its source file, the first of its tests, and what was written. -/
structure Visit where
  source : Label
  first : Fragment
  written : Option UnitKey

/-- The name of the unit up to the suffix. -/
def Visit.stem (visit : Visit) : Text :=
  qualify visit.first.package (FileName.base (FileName.ofPath visit.source.nameText))

theorem qualify_append (package : Label) (name suffix : Text) :
    qualify package (name ++ suffix) = qualify package name ++ suffix := by
  unfold qualify
  split
  · rw [List.append_assoc, List.append_assoc, List.append_assoc]
  · rfl

namespace UnitWriter

variable {directory : Path} {suffix : Text} {writer writer' : UnitWriter} {source : Label}
  {first : Fragment} {rest : List Fragment} {written : Option UnitKey} {world world' : World}
  {visits : List Visit}

/-- What a writer comes to when every unit asked for is either written or passed over. -/
inductive Visited (directory : Path) (suffix : Text) : UnitWriter → List Visit → Prop
  | make : Visited directory suffix (make directory suffix) []
  | visit {writer : UnitWriter} {visits : List Visit} {source : Label} {first : Fragment}
      {rest : List Fragment} {world : World} {written : Option UnitKey} {writer' : UnitWriter}
      {world' : World} :
      Visited directory suffix writer visits →
      Ends (write source (first :: rest)) writer world written writer' world' →
      Visited directory suffix writer' (visits ++ [⟨source, first, written⟩])

theorem ends_write_named
    (h : Ends (write source (first :: rest)) writer world written writer' world') :
    let name := Visit.stem ⟨source, first, written⟩ ++ writer.suffix
    writer'.suffix = writer.suffix ∧
      (name ∈ writer.written ∧ written = none ∧ writer'.written = writer.written ∨
        name ∉ writer.written ∧ written.isSome ∧ writer'.written = writer.written ++ [name]) := by
  obtain ⟨file, hfile, h⟩ := ends_write_cons h
  have hname : (writer.keyFor file first).qualifiedName =
      Visit.stem ⟨source, first, written⟩ ++ writer.suffix := by
    rw [Visit.stem, ← qualify_append, Label.nameText, hfile]
    rfl
  dsimp only at h ⊢
  rw [hname] at h
  split at h
  · next htaken =>
    obtain ⟨rfl, rfl, -⟩ := h
    exact ⟨rfl, .inl ⟨htaken, rfl, rfl⟩⟩
  · next hfree =>
    obtain ⟨rfl, _, -, -, rfl, -⟩ := h
    exact ⟨rfl, .inr ⟨hfree, rfl, rfl⟩⟩

/-- The writer keeps the names of what it wrote, and each visit was decided by those kept
before it. -/
structure Records (suffix : Text) (writer : UnitWriter) (visits : List Visit) : Prop where
  suffix_eq : writer.suffix = suffix
  written : writer.written = (visits.filter (·.written.isSome)).map (·.stem ++ suffix)
  nodup : writer.written.Nodup
  skipped_iff : ∀ before visit after, visits = before ++ visit :: after →
    (visit.written = none ↔
      ∃ earlier ∈ before, earlier.written.isSome ∧ earlier.stem = visit.stem)

theorem Records.mem_written_iff (h : Records suffix writer visits) {stem : Text} :
    stem ++ suffix ∈ writer.written ↔
      ∃ visit ∈ visits, visit.written.isSome ∧ visit.stem = stem := by
  simp only [h.written, List.mem_map, List.mem_filter, List.append_cancel_right_eq, and_assoc]

theorem Records.visit (h : Records suffix writer visits)
    (hends : Ends (write source (first :: rest)) writer world written writer' world') :
    Records suffix writer' (visits ++ [⟨source, first, written⟩]) := by
  obtain ⟨hsuffix, hcases⟩ := ends_write_named hends
  rw [h.suffix_eq] at hsuffix hcases
  have hlast : written = none ↔ ∃ earlier ∈ visits, earlier.written.isSome ∧
      earlier.stem = Visit.stem ⟨source, first, written⟩ := by
    rw [← h.mem_written_iff]
    rcases hcases with ⟨htaken, hnone, -⟩ | ⟨hfree, hsome, -⟩
    · simp only [hnone, true_iff]
      exact hnone ▸ htaken
    · simp only [hfree, iff_false]
      exact Option.isSome_iff_ne_none.mp hsome
  refine ⟨hsuffix, ?_, ?_, ?_⟩
  · rcases hcases with ⟨-, rfl, heq⟩ | ⟨-, hsome, heq⟩
    · simp [heq, h.written]
    · simp [heq, h.written, hsome]
  · rcases hcases with ⟨-, -, heq⟩ | ⟨hfree, -, heq⟩
    · exact heq ▸ h.nodup
    · rw [heq, ← List.concat_eq_append]
      exact h.nodup.concat hfree
  · intro before visit after hsplit
    rcases List.eq_nil_or_concat after with rfl | ⟨more, last, rfl⟩
    · obtain ⟨rfl, hvisit⟩ := List.append_inj' hsplit rfl
      obtain rfl := List.head_eq_of_cons_eq hvisit
      exact hlast
    · rw [List.concat_eq_append, ← List.cons_append, ← List.append_assoc] at hsplit
      exact h.skipped_iff before visit more (List.append_inj_left' hsplit rfl)

theorem Visited.records (h : Visited directory suffix writer visits) :
    Records suffix writer visits := by
  induction h with
  | make => exact ⟨rfl, rfl, List.nodup_nil, by simp⟩
  | visit _ hends ih => exact ih.visit hends

/-- Units are only passed over where one of the same source file was written before. -/
def SkipsOnlyRevisits (visits : List Visit) : Prop :=
  ∀ before visit after, visits = before ++ visit :: after → visit.written = none →
    ∃ earlier ∈ before, earlier.written.isSome ∧ earlier.source = visit.source

/-- No two source files share the name of a unit. -/
def AreApart (visits : List Visit) : Prop :=
  ∀ visit ∈ visits, ∀ other ∈ visits, visit.stem = other.stem → visit.source = other.source

theorem areApart_of_source (source : Text → Label)
    (h : ∀ visit ∈ visits, visit.source = source visit.stem) : AreApart visits := by
  intro visit hm other ho hstem
  rw [h visit hm, h other ho, hstem]

/-- A unit has one name whenever its source file is visited. -/
def AreSteady (visits : List Visit) : Prop :=
  ∀ visit ∈ visits, ∀ other ∈ visits, visit.source = other.source → visit.stem = other.stem

theorem SkipsOnlyRevisits.exists_written (h : SkipsOnlyRevisits visits) {visit : Visit}
    (hm : visit ∈ visits) :
    ∃ other ∈ visits, other.written.isSome ∧ other.source = visit.source := by
  cases hwritten : visit.written with
  | some key => exact ⟨visit, hm, by simp [hwritten], rfl⟩
  | none =>
    obtain ⟨before, after, hsplit⟩ := List.append_of_mem hm
    obtain ⟨earlier, he, hsome, hsource⟩ := h before visit after hsplit hwritten
    exact ⟨earlier, hsplit ▸ List.mem_append_left _ he, hsome, hsource⟩

theorem Records.areApart (h : Records suffix writer visits) (hsteady : AreSteady visits)
    (hskips : SkipsOnlyRevisits visits) : AreApart visits := by
  intro visit hm other ho hstem
  obtain ⟨one, hone, hsome, hsource⟩ := hskips.exists_written hm
  obtain ⟨two, htwo, hsome', hsource'⟩ := hskips.exists_written ho
  have hsame : one.stem = two.stem := by
    rw [hsteady one hone visit hm hsource, hstem, hsteady two htwo other ho hsource']
  -- of the units that were written none has the name of another one
  have heq : one = two := by
    refine List.inj_on_of_nodup_map (h.written ▸ h.nodup) (List.mem_filter.mpr ⟨hone, hsome⟩)
      (List.mem_filter.mpr ⟨htwo, hsome'⟩) ?_
    rw [hsame]
  rw [← hsource, heq, hsource']

/-- A unit is passed over exactly if a unit of its name was written before it, of whatever
source file. Only revisits are passed over where no two source files share a name; and where
each of them keeps its name, only there. -/
theorem skipped_iff_taken (h : Visited directory suffix writer visits) :
    (∀ before visit after, visits = before ++ visit :: after →
        (visit.written = none ↔
          ∃ earlier ∈ before, earlier.written.isSome ∧ earlier.stem = visit.stem)) ∧
      (AreApart visits → SkipsOnlyRevisits visits) ∧
      (AreSteady visits → SkipsOnlyRevisits visits → AreApart visits) := by
  refine ⟨h.records.skipped_iff, fun hapart => ?_, h.records.areApart⟩
  intro before visit after hsplit hnone
  obtain ⟨earlier, he, hsome, hstem⟩ := (h.records.skipped_iff _ _ _ hsplit).mp hnone
  have hm : earlier ∈ visits ∧ visit ∈ visits := by simp [hsplit, he]
  exact ⟨earlier, he, hsome, hapart earlier hm.1 visit hm.2 hstem⟩

-- ---------------------------------------------------------------------------
-- One source file after another
-- ---------------------------------------------------------------------------

/-- Asks for a unit of one test for each of the source files. -/
def writeEach : List (Label × Fragment) → Task (StateM World) UnitWriter (List Visit)
  | [] => return []
  | (source, first) :: later => do
    let written ← write source [first]
    let visits ← writeEach later
    return ⟨source, first, written⟩ :: visits

theorem Visited.writeEach {requests : List (Label × Fragment)} {more : List Visit}
    (h : Visited directory suffix writer visits)
    (hends : Ends (writeEach requests) writer world more writer' world') :
    Visited directory suffix writer' (visits ++ more) ∧
      more.map (fun visit => (visit.source, visit.first)) = requests := by
  induction requests generalizing writer world visits more with
  | nil =>
    obtain ⟨rfl, rfl, rfl⟩ := ends_pure.mp hends
    exact ⟨by simpa using h, rfl⟩
  | cons request later ih =>
    obtain ⟨source, first⟩ := request
    simp only [UnitWriter.writeEach, ends_bind, ends_pure] at hends
    obtain ⟨written, _, _, hfirst, others, _, _, hothers, rfl, rfl, rfl⟩ := hends
    obtain ⟨hvisited, hrequests⟩ := ih (h.visit hfirst) hothers
    refine ⟨?_, by rw [List.map_cons, hrequests]⟩
    rwa [List.append_assoc] at hvisited

/-- A run on a fresh writer that comes to its end. -/
theorem exists_visited (directory : Path) (suffix : Text) (requests : List (Label × Fragment))
    (h : (writeEach requests (make directory suffix) (.ofFiles .empty)).1.1.isOk = true) :
    ∃ writer visits, Visited directory suffix writer visits ∧
      visits.map (fun visit => (visit.source, visit.first)) = requests := by
  obtain ⟨visits, writer, _, hends⟩ := exists_ends _ _ _ h
  obtain ⟨hvisited, hrequests⟩ := Visited.make.writeEach hends
  exact ⟨writer, visits, hvisited, hrequests⟩

def testIn (package : Text) : Fragment where
  functionName := .string "Dark"
  package := .string package
  template := .string "fun Dark() {}"
  requiredImports := []
  signature := .string []
  referencedNames := []

/-- A file of another package in between, and then the first one over again. -/
theorem dark_revisited : ∃ writer first second third,
    let visits := [⟨.string "ui/Dark.kt", testIn "ui", first⟩,
      ⟨.string "app/Dark.kt", testIn "app", second⟩, ⟨.string "ui/Dark.kt", testIn "ui", third⟩]
    Visited (Path.parse "out") "Test" writer visits ∧ first.isSome ∧ second.isSome ∧
      third = none ∧ SkipsOnlyRevisits visits := by
  obtain ⟨writer, visits, hvisited, hrequests⟩ := exists_visited (Path.parse "out") "Test"
    [(.string "ui/Dark.kt", testIn "ui"), (.string "app/Dark.kt", testIn "app"),
      (.string "ui/Dark.kt", testIn "ui")] (by decide +kernel)
  simp only [List.map_eq_cons_iff, List.map_eq_nil_iff] at hrequests
  obtain ⟨⟨_, _, first⟩, _, rfl, hone, ⟨_, _, second⟩, _, rfl, htwo, ⟨_, _, third⟩, _, rfl,
    hthree, rfl⟩ := hrequests
  obtain ⟨rfl, rfl⟩ := Prod.mk.inj hone
  obtain ⟨rfl, rfl⟩ := Prod.mk.inj htwo
  obtain ⟨rfl, rfl⟩ := Prod.mk.inj hthree
  have hui (written : Option UnitKey) :
      Visit.stem ⟨.string "ui/Dark.kt", testIn "ui", written⟩ = "ui.Dark" := rfl
  have happ (written : Option UnitKey) :
      Visit.stem ⟨.string "app/Dark.kt", testIn "app", written⟩ = "app.Dark" := rfl
  have hne : Text.ofString "app.Dark" ≠ "ui.Dark" := by decide
  obtain ⟨htaken, hskips, -⟩ := skipped_iff_taken hvisited
  have hfirst : first.isSome := by
    rw [Option.isSome_iff_ne_none]
    intro hnone
    simpa using (htaken [] _ _ rfl).mp hnone
  have hsecond : second.isSome := by
    rw [Option.isSome_iff_ne_none]
    intro hnone
    obtain ⟨earlier, he, -, hstem⟩ := (htaken [_] _ _ rfl).mp hnone
    obtain rfl := List.mem_singleton.mp he
    rw [hui, happ] at hstem
    exact hne hstem.symm
  refine ⟨writer, first, second, third, hvisited, hfirst, hsecond, ?_, hskips ?_⟩
  · exact (htaken [_, _] _ _ rfl).mpr ⟨_, List.mem_cons_self, hfirst, by rw [hui, hui]⟩
  · refine areApart_of_source
      (fun stem => if stem = "ui.Dark" then .string "ui/Dark.kt" else .string "app/Dark.kt") ?_
    simp [hui, happ, hne]

/-- A dot of the file name in place of one of the package: two source files with a place for
each, and one name. -/
theorem dotted_skipped : ∃ writer first second,
    let visits := [⟨.string "ui/cards/Dark.kt", testIn "ui.cards", first⟩,
      ⟨.string "ui/cards.Dark.kt", testIn "ui", second⟩]
    Visited (Path.parse "out") "Test" writer visits ∧ first.isSome ∧ second = none ∧
      ¬ SkipsOnlyRevisits visits ∧
      Plan.unitPath (Path.parse "out") ⟨.string "ui.cards", "DarkTest"⟩ ≠
        Plan.unitPath (Path.parse "out") ⟨.string "ui", "cards.DarkTest"⟩ := by
  obtain ⟨writer, visits, hvisited, hrequests⟩ := exists_visited (Path.parse "out") "Test"
    [(.string "ui/cards/Dark.kt", testIn "ui.cards"), (.string "ui/cards.Dark.kt", testIn "ui")]
    (by decide +kernel)
  simp only [List.map_eq_cons_iff, List.map_eq_nil_iff] at hrequests
  obtain ⟨⟨_, _, first⟩, _, rfl, hone, ⟨_, _, second⟩, _, rfl, htwo, rfl⟩ := hrequests
  obtain ⟨rfl, rfl⟩ := Prod.mk.inj hone
  obtain ⟨rfl, rfl⟩ := Prod.mk.inj htwo
  have hname : qualify (.string "ui.cards") "Dark" = qualify (.string "ui") "cards.Dark" := by
    decide
  have hfirst : first.isSome := by
    rw [Option.isSome_iff_ne_none]
    intro hnone
    simpa using (hvisited.records.skipped_iff [] _ _ rfl).mp hnone
  have hsecond : second = none :=
    (hvisited.records.skipped_iff [_] _ _ rfl).mpr ⟨_, List.mem_cons_self, hfirst, hname⟩
  refine ⟨writer, first, second, hvisited, hfirst, hsecond, fun hskips => ?_, by decide⟩
  obtain ⟨earlier, he, -, hsource⟩ := hskips [_] _ _ rfl hsecond
  obtain rfl := List.mem_singleton.mp he
  exact absurd hsource (by simp only [Json.string.injEq]; decide)

end UnitWriter

end PreviewShots
