import Mathlib.Data.List.Forall2
import PreviewShots.Proofs.Marker.Query

/-!
# Answers about one table

A classifier that was seeded with a table answers any sequence of queries by the
markers of that table (`interview_answers`): what was asked before, and in which order,
does not show in an answer, and no verdict that is kept contradicts the markers. Each
walk behind an answer ends, and goes through no name twice.
-/

namespace PreviewShots.Marker

section

variable {m : Type → Type} [Monad m]

def classifyAll (table : SymbolTable) : List Label → Task m Classifier (List Bool)
  | [] => return []
  | name :: names => do
    let answer ← classify table name
    return answer :: (← classifyAll table names)

/-- Seeds the markers of a table and asks for names, one after the other. -/
def interview (table : SymbolTable) (names : List Label) : Task m Classifier (List Bool) := do
  let _ ← seed table
  classifyAll table names

end

variable {table : SymbolTable}

/-- The answers tell of each name whether the condition holds. There are none only where
one of the names or an annotation of the table cannot be looked up. -/
def TellAll (table : SymbolTable) (names : List Label) (result : Except Fault (List Bool))
    (condition : Label → Prop) : Prop :=
  match result with
  | .ok answers => List.Forall₂ (fun name answer => answer = true ↔ condition name) names answers
  | .error fault => fault = .illTyped ∧ ((∃ name ∈ names, name.isCompound) ∨ ¬ table.IsReadable)

/-- Every verdict says whether the name is a marker. -/
def Agrees (table : SymbolTable) (base : Label) (registry : MarkerRegistry) : Prop :=
  ∀ name verdict, registry.lookup name = some verdict →
    (verdict = true ↔ IsMarker table base name.key)

theorem classifyAll_asked (names : List Label) (classifier : Classifier) (world : World) :
    ∃ result after, (classifyAll table names : Task (StateM World) Classifier (List Bool))
        classifier world = ((result, after), world) ∧
      Settles table classifier.registry after.registry ∧
      TellAll table names result fun name =>
        name.isTruthy ∧ Finds table classifier.registry name.key := by
  induction names generalizing classifier with
  | nil => exact ⟨.ok [], classifier, rfl, .refl, .nil⟩
  | cons name names ih =>
    obtain ⟨result, next, hrun, hsettles, htells⟩ := classify_asked table name classifier world
    simp only [classifyAll, Task.run_bind, hrun]
    cases result with
    | error fault =>
      exact ⟨.error fault, next, rfl, hsettles, htells.1,
        htells.2.imp_left fun hc => ⟨name, List.mem_cons_self, hc⟩⟩
    | ok answer =>
      obtain ⟨results, after, hruns, hsettles', htell⟩ := ih next
      simp only [hruns]
      cases results with
      | error fault =>
        refine ⟨.error fault, after, rfl, hsettles.trans hsettles', htell.1, ?_⟩
        exact htell.2.imp_left fun ⟨other, hm, hc⟩ => ⟨other, List.mem_cons_of_mem _ hm, hc⟩
      | ok answers =>
        refine ⟨.ok (answer :: answers), after, rfl, hsettles.trans hsettles', .cons htells ?_⟩
        exact htell.imp fun other answer ha =>
          ha.trans (and_congr_right fun _ => hsettles.finds_iff)

-- ---------------------------------------------------------------------------
-- After seeding
-- ---------------------------------------------------------------------------

theorem known_iff_of_seeded {base : Label} {registry : MarkerRegistry}
    (h : Seeded table (.ofBase base) registry) {key : Key} :
    Known registry key ↔ IsRoot table base key := by
  have hbase : (MarkerRegistry.ofBase base).lookup base = some true := by
    simp [MarkerRegistry.lookup_ofBase]
  constructor
  · rintro ⟨name, rfl, hl⟩
    rcases (h.isTrue_iff_isRoot hbase name).mp hl with hl | hroot
    · rw [MarkerRegistry.lookup_ofBase] at hl
      split at hl
      · next hk => exact isRoot_iff.mpr (.inl hk)
      · simp at hl
    · exact hroot
  · intro hroot
    obtain ⟨name, rfl⟩ : ∃ name : Label, name.key = key := by
      rcases hroot with _ | _ <;> exact ⟨_, rfl⟩
    exact ⟨name, rfl, (h.isTrue_iff_isRoot hbase name).mpr (.inr hroot)⟩

/-- What the registry finds are the markers of the table. -/
def Knows (table : SymbolTable) (base : Label) (registry : MarkerRegistry) : Prop :=
  ∀ key, Finds table registry key ↔ IsMarker table base key

theorem Knows.settles {base : Label} {before after : MarkerRegistry} (h : Knows table base before)
    (hs : Settles table before after) : Knows table base after :=
  fun key => hs.finds_iff.trans (h key)

/-- Right after its seed a fresh classifier knows the markers. -/
theorem knows_of_seeded {base : Label} {registry : MarkerRegistry}
    (h : Seeded table (.ofBase base) registry) : Knows table base registry := by
  have hfree : ∀ name, registry.lookup name ≠ some false := by
    intro name hl
    have := h.isFalse name hl
    rw [MarkerRegistry.lookup_ofBase] at this
    split at this <;> simp at this
  intro key
  constructor
  · intro hf
    exact hf.reaches.trans fun key hk => .root ((known_iff_of_seeded h).mp hk)
  · intro hm
    exact finds_of_reaches hm (fun key hk => (known_iff_of_seeded h).mpr hk)
      fun name _ => hfree name

theorem Knows.agrees {base : Label} {registry : MarkerRegistry} (h : Knows table base registry) :
    Agrees table base registry := by
  intro name verdict hl
  rw [← h, finds_iff, hl]
  simp

theorem agrees_ofBase (base : Label) : Agrees table base (.ofBase base) := by
  intro name verdict hl
  rw [MarkerRegistry.lookup_ofBase] at hl
  split at hl
  · next hk =>
    obtain rfl : true = verdict := by simpa using hl
    exact ⟨fun _ => hk ▸ .root .base, fun _ => rfl⟩
  · simp at hl

/-- A classifier is seeded with a table and asked for any names. Each answer says
whether the name is a marker, and so does each verdict kept; only at names and
annotations that cannot be looked up there is no answer. The walk that a next query
would take ends, having gone through no name twice. -/
theorem interview_answers (table : SymbolTable) (base : Label) (names : List Label)
    (world : World) : ∃ result classifier,
      (interview table names : Task (StateM World) Classifier (List Bool)) (.ofBase base) world =
        ((result, classifier), world) ∧
      TellAll table names result (fun name => name.isTruthy ∧ IsMarker table base name.key) ∧
      Agrees table base classifier.registry ∧
      ∀ next, ∃ through, Walks (edges table) classifier.registry.lookup [[next]] [next] through
          (walkFrom (edges table) classifier.registry.lookup (edgeCount table) next) ∧
        (through.map Label.key).Nodup := by
  have hwalks : ∀ (lookup : Label → Option Bool) (next : Label), ∃ through,
      Walks (edges table) lookup [[next]] [next] through
        (walkFrom (edges table) lookup (edgeCount table) next) ∧ (through.map Label.key).Nodup := by
    intro lookup next
    obtain ⟨through, hw⟩ := walks_edges table lookup next
    exact ⟨through, hw, (hw.nodup (by simp [waiting]) (by simp [waiting])).1⟩
  obtain ⟨result, seeded, hrun, hok, herror⟩ :=
    seed_seeded table (.ofBase base) world (.ofBase base)
  simp only [interview, Task.run_bind, hrun]
  cases result with
  | error fault =>
    obtain ⟨hregistry, hfault, hreadable⟩ := herror fault rfl
    exact ⟨.error fault, seeded, rfl, ⟨hfault, .inr hreadable⟩,
      hregistry ▸ agrees_ofBase base, hwalks _⟩
  | ok count =>
    have hs := hok count rfl
    obtain ⟨results, after, hruns, hsettles, htell⟩ := classifyAll_asked names seeded world
    refine ⟨results, after, hruns, ?_, ((knows_of_seeded hs).settles hsettles).agrees, hwalks _⟩
    cases results with
    | error fault => exact htell
    | ok answers =>
      exact htell.imp fun name answer ha =>
        ha.trans (and_congr_right fun _ => knows_of_seeded hs _)

end PreviewShots.Marker
