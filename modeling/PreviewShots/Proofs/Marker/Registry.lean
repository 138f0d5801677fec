import PreviewShots.Marker.Registry
import PreviewShots.Proofs.Label

/-!
# What the registry holds

A registry that was only marked and promoted holds one verdict a name, true or false.
For such a registry the look-up after each operation is determined by the look-up
before: marking adds verdicts where there are none, and promotion makes one name true
and forgets all false verdicts when that name held one.
-/

namespace PreviewShots.MarkerRegistry

@[simp] theorem isSettled_bool (b : Bool) : isSettled (.bool b) = true := rfl

@[simp] theorem isNegative_bool (b : Bool) : isNegative (.bool b) = !b := by cases b <;> rfl

@[simp] theorem isTruthy_bool (b : Bool) : (Json.bool b).isTruthy = b := rfl

structure WellFormed (registry : MarkerRegistry) : Prop where
  distinct : Label.Distinct registry.verdicts
  boolean : ∀ row ∈ registry.verdicts, ∃ verdict, row.2 = .bool verdict

theorem WellFormed.ofBase (base : Label) : (ofBase base).WellFormed :=
  ⟨by simp [MarkerRegistry.ofBase, Label.Distinct], by simp [MarkerRegistry.ofBase]⟩

variable {registry : MarkerRegistry}

theorem WellFormed.find? (hw : registry.WellFormed) {name : Label} {verdict : Json}
    (h : Label.find? name registry.verdicts = some verdict) : ∃ b, verdict = .bool b := by
  obtain ⟨row, hm, _, rfl⟩ := Label.exists_row_of_find? h
  exact hw.boolean row hm

theorem WellFormed.recorded? (hw : registry.WellFormed) (name : Label) :
    registry.recorded? name = (registry.lookup name).map .bool := by
  simp only [lookup, MarkerRegistry.recorded?]
  cases hf : Label.find? name registry.verdicts with
  | none => rfl
  | some verdict =>
    obtain ⟨b, rfl⟩ := hw.find? hf
    simp [Option.filter_some]

theorem WellFormed.lookup_eq (hw : registry.WellFormed) (name : Label) :
    Label.find? name registry.verdicts = (registry.lookup name).map .bool := by
  rw [← hw.recorded? name, MarkerRegistry.recorded?]
  cases hf : Label.find? name registry.verdicts with
  | none => rfl
  | some verdict =>
    obtain ⟨b, rfl⟩ := hw.find? hf
    rfl

theorem lookup_congr {left right : Label} (h : left.key = right.key) :
    registry.lookup left = registry.lookup right := by
  simp [lookup, recorded?, Label.find?_congr h]

/-- The look-up in a registry whose rows are given. -/
theorem lookup_of_find? {base name : Label} {rows : List (Label × Json)} {verdict : Option Bool}
    (h : Label.find? name rows = verdict.map .bool) :
    (MarkerRegistry.mk base rows).lookup name = verdict := by
  cases verdict <;> simp [lookup, recorded?, h, Option.filter_some]

theorem lookup_ofBase (base name : Label) :
    (ofBase base).lookup name = if name.key = base.key then some true else none := by
  refine lookup_of_find? ?_
  by_cases h : base.key = name.key
  · simp [Label.find?, h]
  · simp [Label.find?, h, Ne.symm h]

-- ---------------------------------------------------------------------------
-- Marking
-- ---------------------------------------------------------------------------

@[simp] theorem base_mark (name : Label) (verdict : Bool) :
    (registry.mark name verdict).base = registry.base := by
  simp only [mark, record]
  split <;> rfl

@[simp] theorem base_markAll (names : List Label) (verdict : Bool) :
    (registry.markAll names verdict).base = registry.base := by
  induction names generalizing registry with
  | nil => rfl
  | cons name names ih => exact ih.trans (base_mark name verdict)

theorem WellFormed.mark (hw : registry.WellFormed) (name : Label) (verdict : Bool) :
    (registry.mark name verdict).WellFormed := by
  simp only [MarkerRegistry.mark, record]
  split
  · exact hw
  · refine ⟨hw.distinct.put name _, fun row hm => ?_⟩
    rcases Label.mem_put hm with hm | hv
    · exact hw.boolean row hm
    · exact ⟨verdict, hv⟩

theorem WellFormed.markAll (hw : registry.WellFormed) (names : List Label) (verdict : Bool) :
    (registry.markAll names verdict).WellFormed := by
  induction names generalizing registry with
  | nil => exact hw
  | cons name names ih => exact ih (hw.mark name verdict)

/-- Marking settles the names that are not settled, and no others. -/
theorem lookup_markAll (names : List Label) (verdict : Bool) (other : Label) :
    (registry.markAll names verdict).lookup other =
      if Label.has names other then some ((registry.lookup other).getD verdict)
      else registry.lookup other := by
  induction names generalizing registry with
  | nil => simp [markAll, Label.has]
  | cons name names ih =>
    have hm : registry.markAll (name :: names) verdict =
        (registry.mark name verdict).markAll names verdict := rfl
    rw [hm, ih, lookup_mark]
    by_cases hk : other.key = name.key
    · simp [Label.has, hk, lookup_congr hk]
    · simp [Label.has, hk, Ne.symm hk]

-- ---------------------------------------------------------------------------
-- Promotion
-- ---------------------------------------------------------------------------

@[simp] theorem base_promote (name : Label) : (registry.promote name).base = registry.base := by
  simp only [promote]
  split
  · split
    · rfl
    · split <;> rfl
  · rfl

theorem WellFormed.promote (hw : registry.WellFormed) (name : Label) :
    (registry.promote name).WellFormed := by
  have hput : (MarkerRegistry.mk registry.base
      (Label.put name (.bool true) registry.verdicts)).WellFormed := by
    refine ⟨hw.distinct.put name _, fun row hm => ?_⟩
    rcases Label.mem_put hm with hm | hv
    · exact hw.boolean row hm
    · exact ⟨true, hv⟩
  simp only [MarkerRegistry.promote]
  split
  · split
    · exact hw
    · split
      · exact ⟨hput.distinct.filter _, fun row hm => hput.boolean row (List.mem_filter.mp hm).1⟩
      · exact hput
  · exact hput

theorem lookup_promote (hw : registry.WellFormed) (name other : Label) :
    (registry.promote name).lookup other =
      if other.key = name.key then some true
      else if registry.lookup name = some false then
        (registry.lookup other).filter id
      else registry.lookup other := by
  have hput : Label.find? other (Label.put name (.bool true) registry.verdicts) =
      (if other.key = name.key then some true else registry.lookup other).map .bool := by
    rw [Label.find?_put, hw.lookup_eq]
    split <;> rfl
  rcases hn : registry.lookup name with _ | _ | _
  · have hp : registry.promote name =
        ⟨registry.base, Label.put name (.bool true) registry.verdicts⟩ := by
      simp [promote, hw.recorded?, hn]
    rw [hp, lookup_of_find? hput]
    simp
  · have hp : registry.promote name = ⟨registry.base,
        (Label.put name (.bool true) registry.verdicts).filter fun row => !isNegative row.2⟩ := by
      simp [promote, hw.recorded?, hn]
    rw [hp]
    refine lookup_of_find? ?_
    rw [(hw.distinct.put name _).find?_filter (fun verdict => !isNegative verdict), hput]
    by_cases hk : other.key = name.key
    · simp [hk, Option.filter_some]
    · rcases registry.lookup other with _ | _ | _ <;> simp [hk, Option.filter_some]
  · have hp : registry.promote name = registry := by
      simp [promote, hw.recorded?, hn]
    rw [hp]
    by_cases hk : other.key = name.key
    · simp [hk, lookup_congr hk, hn]
    · simp [hk]

/-- What promotion may do: it makes the names true, keeps what is true, and turns
nothing to false. Either no false verdict changed, or one became true and none is left. -/
structure Promoted (before : MarkerRegistry) (names : List Label) (after : MarkerRegistry) :
    Prop where
  wellFormed : after.WellFormed
  base : after.base = before.base
  isTrue_iff : ∀ other, after.lookup other = some true ↔
    before.lookup other = some true ∨ Label.has names other
  isFalse : ∀ other, after.lookup other = some false → before.lookup other = some false
  kept_or_cleared : (∀ other, before.lookup other = some false → after.lookup other = some false) ∨
    (∃ other, before.lookup other = some false ∧ after.lookup other = some true) ∧
      ∀ other, after.lookup other ≠ some false

theorem Promoted.one (hw : registry.WellFormed) (name : Label) :
    Promoted registry [name] (registry.promote name) := by
  have hl := lookup_promote hw name
  refine ⟨hw.promote name, base_promote name, fun other => ?_, fun other h => ?_, ?_⟩
  · rw [hl other]
    by_cases hk : other.key = name.key
    · simp [Label.has, hk]
    · rcases registry.lookup other with _ | _ | _ <;>
        simp [Label.has, hk, Ne.symm hk, Option.filter_some]
  · rw [hl other] at h
    by_cases hk : other.key = name.key
    · simp [hk] at h
    · rcases ho : registry.lookup other with _ | _ | _ <;> simp_all [Option.filter_some]
  · by_cases hn : registry.lookup name = some false
    · refine .inr ⟨⟨name, hn, by simp [hl]⟩, fun other h => ?_⟩
      rw [hl other] at h
      by_cases hk : other.key = name.key
      · simp [hk] at h
      · rcases ho : registry.lookup other with _ | _ | _ <;> simp_all [Option.filter_some]
    · refine .inl fun other h => ?_
      have hk : other.key ≠ name.key := fun hk => hn (lookup_congr hk ▸ h)
      simp [hl other, hk, hn, h]

theorem Promoted.trans {first second third : MarkerRegistry} {names more : List Label}
    (h : Promoted first names second) (h' : Promoted second more third) :
    Promoted first (names ++ more) third := by
  refine ⟨h'.wellFormed, h'.base.trans h.base, fun other => ?_,
    fun other hf => h.isFalse other (h'.isFalse other hf), ?_⟩
  · rw [h'.isTrue_iff, h.isTrue_iff]
    simp [Label.has, or_assoc]
  · rcases h'.kept_or_cleared with hk' | ⟨⟨other, hf, ht⟩, hc'⟩
    · rcases h.kept_or_cleared with hk | ⟨⟨other, hf, ht⟩, hc⟩
      · exact .inl fun other hf => hk' other (hk other hf)
      · exact .inr ⟨⟨other, hf, (h'.isTrue_iff other).mpr (.inl ht)⟩,
          fun other hf => hc other (h'.isFalse other hf)⟩
    · exact .inr ⟨⟨other, h.isFalse other hf, ht⟩, hc'⟩

end PreviewShots.MarkerRegistry
