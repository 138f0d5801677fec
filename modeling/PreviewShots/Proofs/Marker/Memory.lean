import PreviewShots.Proofs.Selection

/-!
# Queries that are asked again

An answer is kept: the name that was asked for has a verdict (`Marker.kept_of_ends`). So
a classifier whose registry holds all that came of a query answers it from memory and learns
nothing (`replays_known`). A classifier whose registry holds the same verdicts as another one
goes the same ways, whatever labels stand for their names (`replays_same`).
-/

open PreviewShots.Task

namespace PreviewShots

namespace MarkerRegistry

/-- The registries hold the same verdicts. -/
def Same (first second : MarkerRegistry) : Prop :=
  ∀ name, second.lookup name = first.lookup name

/-- The later registry holds all verdicts of the earlier one. -/
def IsWithin (earlier later : MarkerRegistry) : Prop :=
  ∀ name verdict, earlier.lookup name = some verdict → later.lookup name = some verdict

variable {first second third : MarkerRegistry}

theorem Same.symm (h : Same first second) : Same second first :=
  fun name => (h name).symm

theorem Same.lookup_eq (h : Same first second) : second.lookup = first.lookup :=
  funext h

theorem Same.isWithin (h : Same first second) : IsWithin first second :=
  fun name _ hl => (h name).trans hl

end MarkerRegistry

namespace Marker

variable {table : SymbolTable} {name : Label} {answer : Bool}
  {first first' second : Classifier} {world world' later : World}

theorem has_called (stubs : List Label) (names : List Label) (other : Label) :
    Label.has (names.map (table.called stubs)) other = Label.has names other := by
  rw [Bool.eq_iff_iff, Label.has_iff, Label.has_iff]
  simp [SymbolTable.key_called]

theorem ends_search_iff {α : Type} {search : Search α} {found : α} :
    Ends (Classifier.search table search) first world found first' world' ↔
      search.found? = some found ∧ first' = first.note table search.names ∧ world' = world := by
  simp only [Classifier.search, ends_bind, ends_modify, ends_ofOption]
  constructor
  · rintro ⟨_, _, _, ⟨rfl, rfl⟩, hfound, rfl, rfl⟩
    exact ⟨hfound, rfl, rfl⟩
  · rintro ⟨hfound, rfl, rfl⟩
    exact ⟨⟨⟩, _, _, ⟨rfl, rfl⟩, hfound, rfl, rfl⟩

/-- A query that ends looks up a name, and unless it is none of a class, asks the registry. -/
theorem ends_classify_iff :
    Ends (classify table name) first world answer first' world' ↔
      let noted := first.note table (table.lookUp name).names
      (table.lookUp name).found? = some none ∧ answer = false ∧ first' = noted ∧ world' = world ∨
      (∃ decl, (table.lookUp name).found? = some (some decl)) ∧
        (noted.registry.lookup name = some answer ∧ first' = noted ∧ world' = world ∨
          noted.registry.lookup name = none ∧
            Ends (conclude table
              (walkFrom (edges table) noted.registry.lookup (edgeCount table) name))
              noted world answer first' world') := by
  simp only [classify, ends_bind, ends_search_iff]
  constructor
  · rintro ⟨found, _, _, ⟨hfound, rfl, rfl⟩, h⟩
    cases found with
    | none =>
      obtain ⟨rfl, rfl, rfl⟩ := ends_pure.mp h
      exact .inl ⟨hfound, rfl, rfl, rfl⟩
    | some decl =>
      simp only [ends_bind, ends_get] at h
      obtain ⟨_, _, _, ⟨rfl, rfl, rfl⟩, h⟩ := h
      refine .inr ⟨⟨decl, hfound⟩, ?_⟩
      split at h
      · next verdict hl =>
        obtain ⟨rfl, rfl, rfl⟩ := ends_pure.mp h
        exact .inl ⟨hl, rfl, rfl⟩
      · next hl => exact .inr ⟨hl, h⟩
  · rintro (⟨hfound, rfl, rfl, rfl⟩ | ⟨⟨decl, hfound⟩, h⟩)
    · exact ⟨none, _, _, ⟨hfound, rfl, rfl⟩, ends_pure.mpr ⟨rfl, rfl, rfl⟩⟩
    · refine ⟨some decl, _, _, ⟨hfound, rfl, rfl⟩,
        ends_bind.mpr ⟨_, _, _, ends_get.mpr ⟨rfl, rfl, rfl⟩, ?_⟩⟩
      rcases h with ⟨hl, rfl, rfl⟩ | ⟨hl, h⟩
      · simp only [hl]
        exact ends_pure.mpr ⟨rfl, rfl, rfl⟩
      · simp only [hl]
        exact h

/-- What a classifier keeps of a walk. -/
theorem ends_conclude_iff {outcome : Outcome} :
    Ends (conclude table outcome) first world answer first' world' ↔ ∃ names seen,
      (outcome = .reached names seen ∧ answer = true ∨
        outcome = .exhausted seen ∧ names = seen.reverse ∧ answer = false) ∧
      first' = (first.note table seen.reverse).settle table names answer ∧ world' = world := by
  cases outcome with
  | reached path seen =>
    simp only [conclude, ends_bind, ends_modify, ends_pure]
    constructor
    · rintro ⟨_, _, _, ⟨rfl, rfl⟩, rfl, rfl, rfl⟩
      exact ⟨path, seen, .inl ⟨rfl, rfl⟩, rfl, rfl⟩
    · rintro ⟨_, _, ⟨he, rfl⟩ | ⟨he, -⟩, rfl, rfl⟩
      · cases he
        exact ⟨⟨⟩, _, _, ⟨rfl, rfl⟩, rfl, rfl, rfl⟩
      · cases he
  | exhausted seen =>
    simp only [conclude, ends_bind, ends_modify, ends_pure]
    constructor
    · rintro ⟨_, _, _, ⟨rfl, rfl⟩, rfl, rfl, rfl⟩
      exact ⟨_, seen, .inr ⟨rfl, rfl, rfl⟩, rfl, rfl⟩
    · rintro ⟨_, _, ⟨he, -⟩ | ⟨he, rfl, rfl⟩, rfl, rfl⟩
      · cases he
      · cases he
        exact ⟨⟨⟩, _, _, ⟨rfl, rfl⟩, rfl, rfl, rfl⟩
  | stuck seen =>
    simp only [conclude, ends_bind]
    constructor
    · rintro ⟨_, _, _, -, hthrow⟩
      exact absurd hthrow ends_throw
    · rintro ⟨_, _, ⟨he, -⟩ | ⟨he, -⟩, -⟩ <;> cases he

theorem lookup_settle (classifier : Classifier) (names : List Label) (verdict : Bool)
    (other : Label) : (classifier.settle table names verdict).registry.lookup other =
      if Label.has names other then some ((classifier.registry.lookup other).getD verdict)
      else classifier.registry.lookup other := by
  rw [Classifier.settle, MarkerRegistry.lookup_markAll, has_called]

/-- What a query that ends has found is kept. -/
theorem kept_of_ends (h : Ends (classify table name) first world answer first' world')
    {decl : ClassDecl} (hfound : (table.lookUp name).found? = some (some decl)) :
    first'.registry.lookup name = some answer := by
  rcases ends_classify_iff.mp h with ⟨hnone, -⟩ | ⟨-, ⟨hl, rfl, -⟩ | ⟨hl, hconclude⟩⟩
  · simp [hfound] at hnone
  · exact hl
  generalize first.note table (table.lookUp name).names = noted at hl hconclude
  obtain ⟨through, hw⟩ := walks_edges table noted.registry.lookup name
  obtain ⟨names, seen, hends, rfl, -⟩ := ends_conclude_iff.mp hconclude
  have hmem : name ∈ names := by
    rcases hends with ⟨ho, -⟩ | ⟨ho, rfl, -⟩
    · exact (hw.trail (by simpa using Trail.start hl) ho).1.start_mem
    · obtain ⟨-, hstart⟩ := hw.survey (by
        intro other hother
        obtain rfl := List.mem_singleton.mp hother
        exact .inr ⟨hl, .inl ⟨[], by simp⟩⟩) ho
      exact List.mem_reverse.mpr (hstart name (by simp))
  rw [lookup_settle, if_pos (Label.has_iff.mpr ⟨name, hmem, rfl⟩), Classifier.registry_note, hl]
  rfl

/-- A classifier that is like another one, and learns no more than a bound allows, is given
the same answers, and they are alike afterwards. -/
structure Replays (table : SymbolTable) (within : MarkerRegistry → Prop)
    (like : MarkerRegistry → MarkerRegistry → Prop) : Prop where
  earlier : ∀ {before after : MarkerRegistry}, Settles table before after → within after →
    within before
  classify : ∀ {name answer} {first first' second : Classifier} {world world' : World},
    Ends (classify table name) first world answer first' world' → within first'.registry →
    like first.registry second.registry → ∀ later, ∃ second',
      Ends (Marker.classify table name) second later answer second' later ∧
        like first'.registry second'.registry

theorem replays_same (table : SymbolTable) :
    Replays table (fun _ => True) MarkerRegistry.Same where
  earlier := fun _ _ => trivial
  classify := by
    intro name answer first first' second world world' h _ hsame later
    let noted := second.note table (table.lookUp name).names
    rcases ends_classify_iff.mp h with ⟨hfound, rfl, rfl, -⟩ | ⟨hfound, ⟨hl, rfl, -⟩ | ⟨hl, hends⟩⟩
    · exact ⟨noted, ends_classify_iff.mpr (.inl ⟨hfound, rfl, rfl, rfl⟩), hsame⟩
    · refine ⟨noted, ends_classify_iff.mpr (.inr ⟨hfound, .inl ⟨?_, rfl, rfl⟩⟩), hsame⟩
      exact (hsame name).trans hl
    · obtain ⟨names, seen, houtcome, rfl, -⟩ := ends_conclude_iff.mp hends
      rw [Classifier.registry_note, ← hsame.lookup_eq] at houtcome
      refine ⟨(noted.note table seen.reverse).settle table names answer, ?_, fun other => ?_⟩
      · refine ends_classify_iff.mpr (.inr ⟨hfound, .inr ⟨(hsame name).trans hl, ?_⟩⟩)
        exact ends_conclude_iff.mpr ⟨names, seen, houtcome, rfl, rfl⟩
      · rw [lookup_settle, lookup_settle]
        simp [noted, hsame other]

theorem replays_known (table : SymbolTable) (memory : MarkerRegistry) :
    Replays table (·.IsWithin memory) (fun _ second => second = memory) where
  earlier := fun hs hw name verdict hl => hw name verdict (hs.kept name verdict hl)
  classify := by
    rintro name answer first first' second world world' h hwithin rfl later
    rcases ends_classify_iff.mp h with ⟨hfound, rfl, -⟩ | ⟨⟨decl, hfound⟩, -⟩
    · exact ⟨_, ends_classify_iff.mpr (.inl ⟨hfound, rfl, rfl, rfl⟩), rfl⟩
    · have hl := hwithin name answer (kept_of_ends h hfound)
      exact ⟨_, ends_classify_iff.mpr (.inr ⟨⟨decl, hfound⟩, .inl ⟨hl, rfl, rfl⟩⟩), rfl⟩

end Marker

end PreviewShots
