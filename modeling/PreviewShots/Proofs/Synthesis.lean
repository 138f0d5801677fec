import PreviewShots.Proofs.Selection
import PreviewShots.Session

/-!
# Synthesis by the plan

A synthesis that ends gives the fragment of the eligible function, and that of a file the
fragments of its functions. Neither writes a file or changes a verdict.
-/

open PreviewShots.Task

namespace PreviewShots

variable {table : SymbolTable} {config : Config} {classifier classifier' : Classifier}
  {world world' : World}

namespace Synthesis

theorem record?_ignoredNotices (function : FunctionDecl) (providers : List Provider) :
    (ignoredNotices function providers).filterMap Notice.record? = [] := by
  simp only [ignoredNotices]
  split <;> rfl

theorem record?_forwardNotices (function : FunctionDecl) (providers : List Provider) :
    (forwardNotices function providers).filterMap Notice.record? = [] := by
  simp [forwardNotices, List.filterMap_map, List.filterMap_eq_nil_iff, Notice.record?]

/-- The fragment of a function is determined by the names it is written with. -/
theorem eq_of_fragment? {eligible : Eligible} {fragment : Fragment}
    (h : fragment? table config eligible = some fragment) :
    fragment = Synthesis.fragment table config eligible
      ((names table config eligible).map (·.nameText)) := by
  simp only [fragment?] at h
  split at h
  · simp at h
  · obtain ⟨texts, htexts, rfl⟩ := Option.map_eq_some_iff.mp h
    rw [Label.eq_of_texts? htexts]

variable {eligibles : List Eligible} {fragments : List Fragment}

/-- Each of the fragments is the one of the eligible function in its place. -/
def AreFragments (table : SymbolTable) (config : Config) (eligibles : List Eligible)
    (fragments : List Fragment) : Prop :=
  eligibles.map (fragment? table config) = fragments.map some

theorem AreFragments.isSome (h : AreFragments table config eligibles fragments) :
    ∀ eligible ∈ eligibles, (fragment? table config eligible).isSome := by
  intro eligible he
  have hm : fragment? table config eligible ∈ fragments.map some := h ▸ List.mem_map_of_mem he
  obtain ⟨fragment, -, hf⟩ := List.mem_map.mp hm
  rw [← hf]
  rfl

theorem AreFragments.eq_filterMap (h : AreFragments table config eligibles fragments) :
    eligibles.filterMap (fragment? table config) = fragments := by
  have hid : eligibles.filterMap (fragment? table config) =
      (eligibles.map (fragment? table config)).filterMap id := by
    rw [List.filterMap_map]
    rfl
  rw [hid, h, List.filterMap_map]
  exact List.filterMap_some

/-- What is read off the fragments one by one is known of the functions. -/
theorem AreFragments.map_eq {α : Type} {read : Fragment → α} {expected : Eligible → α}
    (h : AreFragments table config eligibles fragments)
    (hread : ∀ eligible ∈ eligibles, ∀ fragment,
      fragment? table config eligible = some fragment → read fragment = expected eligible) :
    fragments.map read = eligibles.map expected := by
  induction eligibles generalizing fragments with
  | nil =>
    obtain rfl := List.map_eq_nil_iff.mp h.symm
    rfl
  | cons eligible eligibles ih =>
    cases fragments with
    | nil => simp [AreFragments] at h
    | cons fragment fragments =>
      obtain ⟨hfirst, hrest⟩ := List.cons.inj h
      rw [List.map_cons, List.map_cons, hread eligible List.mem_cons_self fragment hfirst,
        ih hrest fun other ho => hread other (List.mem_cons_of_mem _ ho)]

theorem AreFragments.eq_map (h : AreFragments table config eligibles fragments) :
    fragments = eligibles.map fun eligible => fragment table config eligible
      ((names table config eligible).map (·.nameText)) := by
  rw [← h.map_eq fun eligible _ _ hf => eq_of_fragment? hf, List.map_id']

end Synthesis

theorem Eligible.ends_synthesize {eligible : Eligible} {fragment : Fragment}
    (h : Ends (eligible.synthesize table config) classifier world fragment classifier' world') :
    Synthesis.fragment? table config eligible = some fragment ∧
      classifier'.registry = classifier.registry ∧
      world'.files = world.files ∧ world'.warned = world.warned := by
  simp only [Eligible.synthesize, ends_bind, ends_expect, ends_notifyAll, ends_ofOption] at h
  obtain ⟨_, _, _, ⟨-, rfl, rfl⟩, providers, _, _, hsearch, _, _, _, ⟨-, rfl, rfl⟩,
    _, _, _, ⟨rfl, rfl⟩, _, _, _, ⟨-, rfl, rfl⟩, _, _, _, ⟨rfl, rfl⟩, hfragment, rfl, rfl⟩ := h
  obtain ⟨-, hregistry, rfl⟩ := Classifier.ends_search hsearch
  refine ⟨hfragment, hregistry, rfl, ?_⟩
  simp [World.warned, Synthesis.record?_ignoredNotices, Synthesis.record?_forwardNotices]

theorem Session.ends_synthesizeAll {session session' : Session} {eligibles : List Eligible}
    {fragments : List Fragment}
    (h : Ends (synthesizeAll table eligibles) session world fragments session' world') :
    Synthesis.AreFragments table session.config eligibles fragments ∧
    ∃ classifier', classifier'.registry = session.classifier.registry ∧
      session' = { session with classifier := classifier' } ∧
      world'.files = world.files ∧ world'.warned = world.warned := by
  induction eligibles generalizing session world fragments with
  | nil =>
    obtain ⟨rfl, rfl, rfl⟩ := ends_pure.mp h
    exact ⟨rfl, session'.classifier, rfl, rfl, rfl, rfl⟩
  | cons eligible eligibles ih =>
    simp only [synthesizeAll, onClassifier, ends_bind, ends_get, ends_within, ends_pure] at h
    obtain ⟨_, session, _, ⟨rfl, rfl, rfl⟩, fragment, _, _, ⟨classifier, hfirst, rfl⟩,
      rest, _, _, hrest, rfl, rfl, rfl⟩ := h
    obtain ⟨hfragment, hregistry, hfiles, hwarned⟩ := Eligible.ends_synthesize hfirst
    obtain ⟨hfragments, classifier', hregistry', rfl, hfiles', hwarned'⟩ := ih hrest
    refine ⟨?_, classifier', hregistry'.trans hregistry, rfl, hfiles'.trans hfiles,
      hwarned'.trans hwarned⟩
    simpa [Synthesis.AreFragments, hfragment] using hfragments

end PreviewShots
