/-!
# Texts within texts

Whether a text starts with another one, and whether it holds it anywhere.
-/

namespace PreviewShots.Text

/-- What follows `lead`, if the text starts with it. -/
def dropLead? {α : Type} [DecidableEq α] : List α → List α → Option (List α)
  | [], text => some text
  | _ :: _, [] => none
  | l :: ls, c :: cs => if l = c then dropLead? ls cs else none

theorem dropLead?_eq_some {α : Type} [DecidableEq α] {lead text rest : List α} :
    dropLead? lead text = some rest ↔ text = lead ++ rest := by
  induction lead generalizing text with
  | nil => simp [dropLead?]
  | cons l ls ih =>
    cases text with
    | nil => simp [dropLead?]
    | cons c cs => by_cases h : l = c <;> simp [dropLead?, h, ih, eq_comm]

/-- Whether `part` occurs in the text; the empty text occurs in every one. -/
def holds {α : Type} [DecidableEq α] (part : List α) : List α → Bool
  | [] => part.isEmpty
  | c :: cs => (dropLead? part (c :: cs)).isSome || holds part cs

theorem holds_iff {α : Type} [DecidableEq α] {part text : List α} :
    holds part text = true ↔ ∃ before after, text = before ++ part ++ after := by
  induction text with
  | nil =>
    simp only [holds, List.isEmpty_iff]
    exact ⟨fun h => ⟨[], [], by simp [h]⟩, fun ⟨b, a, h⟩ => by
      simp only [List.nil_eq, List.append_eq_nil_iff] at h; exact h.1.2⟩
  | cons c cs ih =>
    simp only [holds, Bool.or_eq_true, ih]
    constructor
    · rintro (h | ⟨b, a, h⟩)
      · obtain ⟨rest, hr⟩ := Option.isSome_iff_exists.1 h
        exact ⟨[], rest, by simpa using dropLead?_eq_some.1 hr⟩
      · exact ⟨c :: b, a, by simp [h]⟩
    · rintro ⟨b, a, h⟩
      cases b with
      | nil => exact .inl (by rw [dropLead?_eq_some.2 (by simpa using h)]; rfl)
      | cons d b => exact .inr ⟨b, a, by simp at h; simp [h.2]⟩

end PreviewShots.Text
