import PreviewShots.Proofs.Marker.Graph
import PreviewShots.Proofs.Marker.Registry
import PreviewShots.Proofs.Marker.Walk

/-!
# What follows from the verdicts of a registry

From a registry a name is found to be a marker if edges lead from it, over names
without a verdict, to a name held to be one. A registry settles what follows from an
earlier one if it keeps all verdicts of that and has no others than those which
follow. What follows is then the same for both, so it does not matter how many names
were settled in between, nor in which order.
-/

namespace PreviewShots.Marker

variable {table : SymbolTable} {registry : MarkerRegistry}

/-- The names from which a walk meets a marker. -/
inductive Finds (table : SymbolTable) (registry : MarkerRegistry) : Key → Prop
  | known {name : Label} : registry.lookup name = some true → Finds table registry name.key
  | edge {name : Label} {next : Key} : registry.lookup name = none → Edge table name.key next →
      Finds table registry next → Finds table registry name.key

/-- The keys of the names held to be markers. -/
def Known (registry : MarkerRegistry) (key : Key) : Prop :=
  ∃ name : Label, name.key = key ∧ registry.lookup name = some true

theorem finds_iff {name : Label} : Finds table registry name.key ↔
    registry.lookup name = some true ∨
      registry.lookup name = none ∧
        ∃ next, Edge table name.key next ∧ Finds table registry next := by
  constructor
  · intro h
    generalize hk : name.key = key at h
    cases h with
    | known hl => exact .inl (MarkerRegistry.lookup_congr hk ▸ hl)
    | edge hl he hf => exact .inr ⟨MarkerRegistry.lookup_congr hk ▸ hl, _, hk ▸ he, hf⟩
  · rintro (hl | ⟨hl, next, he, hf⟩)
    · exact .known hl
    · exact .edge hl he hf

theorem Finds.reaches {key : Key} (h : Finds table registry key) :
    Reaches (Edge table) (Known registry) key := by
  induction h with
  | known hl => exact .root ⟨_, rfl, hl⟩
  | edge _ he _ ih => exact .edge he ih

/-- Where no name held to be no marker is on the way, reaching a marker is finding it. -/
theorem finds_of_reaches {roots : Key → Prop} {key : Key} (h : Reaches (Edge table) roots key)
    (hroots : ∀ key, roots key → Known registry key)
    (hfree : ∀ name : Label, Reaches (Edge table) roots name.key →
      registry.lookup name ≠ some false) : Finds table registry key := by
  induction h with
  | root hk =>
    obtain ⟨name, rfl, hl⟩ := hroots _ hk
    exact .known hl
  | @edge key next he hr ih =>
    obtain ⟨hname, ha, hfound⟩ := he
    rename_i name _ _ _
    have he : Edge table name.key _ := .mk hname ha hfound
    rcases hl : registry.lookup name with _ | _ | _
    · exact .edge hl he ih
    · exact absurd hl (hfree name (.edge he hr))
    · exact .known hl

-- ---------------------------------------------------------------------------
-- Settling
-- ---------------------------------------------------------------------------

structure Settles (table : SymbolTable) (before after : MarkerRegistry) : Prop where
  base : after.base = before.base
  wellFormed : before.WellFormed → after.WellFormed
  kept : ∀ name verdict, before.lookup name = some verdict → after.lookup name = some verdict
  follows : ∀ name verdict, before.lookup name = none → after.lookup name = some verdict →
    (verdict = true ↔ Finds table before name.key)

theorem Settles.refl : Settles table registry registry :=
  ⟨rfl, id, fun _ _ => id, fun _ _ hn hs => by simp [hn] at hs⟩

theorem Settles.lookup_of_none {before after : MarkerRegistry} (h : Settles table before after)
    {name : Label} (hl : after.lookup name = none) : before.lookup name = none := by
  cases hb : before.lookup name with
  | none => rfl
  | some verdict => simp [h.kept name verdict hb] at hl

theorem Settles.finds_iff {before after : MarkerRegistry} (h : Settles table before after)
    {key : Key} : Finds table after key ↔ Finds table before key := by
  constructor
  · intro hf
    induction hf with
    | @known name hl =>
      cases hb : before.lookup name with
      | none => exact (h.follows name true hb hl).mp rfl
      | some verdict =>
        obtain rfl : verdict = true := by simpa [hl] using (h.kept name verdict hb).symm
        exact .known hb
    | edge hl he _ ih => exact .edge (h.lookup_of_none hl) he ih
  · intro hf
    induction hf with
    | known hl => exact .known (h.kept _ _ hl)
    | @edge name next hl he hnext ih =>
      rcases ha : after.lookup name with _ | _ | _
      · exact .edge ha he ih
      · have := (h.follows name false hl ha).mpr (.edge hl he hnext)
        simp at this
      · exact .known ha

theorem Settles.trans {first second third : MarkerRegistry} (h : Settles table first second)
    (h' : Settles table second third) : Settles table first third := by
  refine ⟨h'.base.trans h.base, h'.wellFormed ∘ h.wellFormed,
    fun name verdict hl => h'.kept name verdict (h.kept name verdict hl), ?_⟩
  intro name verdict hn hl
  cases hs : second.lookup name with
  | none => rw [h'.follows name verdict hs hl, h.finds_iff]
  | some earlier =>
    obtain rfl : earlier = verdict := by simpa [hl] using (h'.kept name earlier hs).symm
    exact h.follows name earlier hn hs

/-- Marking settles names if the verdict follows for those that have none. -/
theorem Settles.markAll {names : List Label} {verdict : Bool}
    (h : ∀ name ∈ names, registry.lookup name = none →
      (verdict = true ↔ Finds table registry name.key)) :
    Settles table registry (registry.markAll names verdict) := by
  refine ⟨MarkerRegistry.base_markAll names verdict, fun hw => hw.markAll names verdict, ?_, ?_⟩
  · intro name earlier hl
    rw [MarkerRegistry.lookup_markAll]
    split <;> simp [hl]
  · intro name later hn hl
    rw [MarkerRegistry.lookup_markAll, hn] at hl
    split at hl
    · next hh =>
      obtain rfl : verdict = later := by simpa using hl
      obtain ⟨other, hm, hk⟩ := Label.has_iff.mp hh
      rw [← hk]
      exact h other hm (MarkerRegistry.lookup_congr hk ▸ hn)
    · simp at hl

end PreviewShots.Marker
