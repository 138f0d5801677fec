import Mathlib.Data.List.Forall2
import Mathlib.Data.List.Perm.Subperm
import PreviewShots.Proofs.Json.Reader
import PreviewShots.Proofs.Label

/-!
# Agreement by parts

Lists agree item by item, objects key by key. On values that were read agreement is
reflexive and symmetric, and it is transitive throughout. A value that is no number
is the only one that does not equal itself.
-/

namespace PreviewShots

section

variable {α β γ : Type} {R : α → β → Prop} {left : List α} {right : List β}

theorem forall₂_symm {S : β → α → Prop} (h : List.Forall₂ R left right)
    (hs : ∀ x ∈ left, ∀ y ∈ right, R x y → S y x) : List.Forall₂ S right left := by
  induction h with
  | nil => exact .nil
  | cons hxy _ ih =>
    refine .cons (hs _ List.mem_cons_self _ List.mem_cons_self hxy) (ih ?_)
    exact fun x hx y hy => hs x (List.mem_cons_of_mem _ hx) y (List.mem_cons_of_mem _ hy)

theorem forall₂_trans {S : β → γ → Prop} {T : α → γ → Prop} {last : List γ}
    (h : List.Forall₂ R left right) (h' : List.Forall₂ S right last)
    (ht : ∀ x ∈ left, ∀ y z, R x y → S y z → T x z) : List.Forall₂ T left last := by
  induction h generalizing last with
  | nil =>
    cases h'
    exact .nil
  | cons hxy _ ih =>
    cases h' with
    | cons hyz h' =>
      refine .cons (ht _ List.mem_cons_self _ _ hxy hyz) (ih h' ?_)
      exact fun x hx => ht x (List.mem_cons_of_mem _ hx)

end

namespace Json

theorem itemsAgree_iff {left right : List Json} :
    itemsAgree left right = true ↔ List.Forall₂ (agrees · ·) left right := by
  induction left generalizing right with
  | nil => cases right <;> simp [itemsAgree]
  | cons x xs ih => cases right <;> simp [itemsAgree, ih]

/-- Every key has a counterpart on the right that agrees. -/
theorem membersAgree_iff {left right : List Member} :
    membersAgree left right = true ↔
      ∀ m ∈ left, ∃ other, getMember? m.key right = some other ∧ m.value.agrees other := by
  induction left with
  | nil => simp [membersAgree]
  | cons m ms ih =>
    obtain ⟨key, value⟩ := m
    simp only [membersAgree, Bool.and_eq_true, ih, List.forall_mem_cons]
    cases getMember? key right <;> simp

theorem agrees_array {left : List Json} {right : Json} :
    (array left).agrees right = true ↔
      ∃ items, right = .array items ∧ List.Forall₂ (agrees · ·) left items := by
  cases right <;> simp [agrees, itemsAgree_iff]

theorem agrees_object {left : List Member} {right : Json} :
    (object left).agrees right = true ↔
      ∃ members, right = .object members ∧ left.length = members.length ∧
        ∀ m ∈ left, ∃ other, getMember? m.key members = some other ∧ m.value.agrees other := by
  cases right <;> simp [agrees, membersAgree_iff]

-- ---------------------------------------------------------------------------
-- Scalars
-- ---------------------------------------------------------------------------

theorem agrees_of_quantity {left : Json} {quantity : Quantity}
    (h : left.quantity? = some quantity) (right : Json) :
    left.agrees right = decide (right.quantity? = some quantity) := by
  cases left with
  | null | string | array | object => simp [quantity?] at h
  | bool | int | float => simp [agrees, numbersAgree, h, eq_comm]

/-- Scalars agree when they have one key. -/
theorem agrees_scalar {left right : Json} (hs : Label.isScalar left) :
    left.agrees right = true ↔ Label.key left = Label.key right := by
  cases hk : Label.key left with
  | null =>
    rw [Label.eq_null_of_key hk]
    constructor
    · intro h
      cases right <;> simp_all [agrees, Label.key]
    · intro h
      rw [Label.eq_null_of_key h.symm]
      rfl
  | text text =>
    rw [Label.eq_string_of_key hk]
    constructor
    · intro h
      cases right <;> simp_all [agrees, Label.key]
    · intro h
      rw [Label.eq_string_of_key h.symm]
      simp
  | number quantity =>
    rw [agrees_of_quantity (Label.quantity?_of_key hk), decide_eq_true_eq]
    exact ⟨fun h => (Label.key_of_quantity h).symm, fun h => Label.quantity?_of_key h.symm⟩
  | compound => exact absurd hk (Label.isScalar_iff.mp hs)

theorem isScalar_of_agrees {left right : Json} (hs : Label.isScalar left)
    (h : left.agrees right = true) : Label.isScalar right := by
  rw [Label.isScalar_iff, ← (agrees_scalar hs).mp h]
  exact Label.isScalar_iff.mp hs

-- ---------------------------------------------------------------------------
-- Agreement as a relation
-- ---------------------------------------------------------------------------

theorem IsRead.agrees_refl {value : Json} (h : value.IsRead) : value.agrees value = true := by
  induction h with
  | scalar hs => exact (agrees_scalar hs).mpr rfl
  | array _ ih => exact agrees_array.mpr ⟨_, rfl, List.forall₂_same.mpr ih⟩
  | object hk _ ih =>
    refine agrees_object.mpr ⟨_, rfl, rfl, fun member hm => ?_⟩
    exact ⟨member.value, getMember?_eq_some hk hm, ih member hm⟩

/-- Objects with as many keys, each of the one among those of the other, have the
same keys. -/
theorem mem_keys_of_agree {left right : List Member} (hl : (left.map (·.key)).Nodup)
    (hlength : left.length = right.length)
    (h : ∀ m ∈ left, ∃ other, getMember? m.key right = some other) {key : Text}
    (hm : key ∈ right.map (·.key)) : key ∈ left.map (·.key) := by
  have hsub : left.map (·.key) ⊆ right.map (·.key) := by
    intro key hkey
    obtain ⟨member, hmem, rfl⟩ := List.mem_map.mp hkey
    obtain ⟨other, ho⟩ := h member hmem
    exact List.mem_map.mpr ⟨_, exists_of_getMember? ho, rfl⟩
  have hperm := (List.subperm_of_subset hl hsub).perm_of_length_le (by simp [hlength])
  exact hperm.mem_iff.mpr hm

theorem IsRead.agrees_symm {left right : Json} (hl : left.IsRead) (hr : right.IsRead)
    (h : left.agrees right = true) : right.agrees left = true := by
  induction hl generalizing right with
  | scalar hs =>
    exact (agrees_scalar (isScalar_of_agrees hs h)).mpr ((agrees_scalar hs).mp h).symm
  | array _ ih =>
    obtain ⟨others, rfl, hitems⟩ := agrees_array.mp h
    refine agrees_array.mpr ⟨_, rfl, forall₂_symm hitems ?_⟩
    exact fun item hi other ho => ih item hi (isRead_array.mp hr other ho)
  | object hk _ ih =>
    obtain ⟨others, rfl, hlength, h⟩ := agrees_object.mp h
    obtain ⟨hkothers, hothers⟩ := isRead_object.mp hr
    refine agrees_object.mpr ⟨_, rfl, hlength.symm, fun other ho => ?_⟩
    have hkey := mem_keys_of_agree hk hlength
      (fun member hm => (h member hm).imp fun _ => And.left)
      (List.mem_map_of_mem ho)
    obtain ⟨member, hm, he⟩ := List.mem_map.mp hkey
    obtain ⟨value, hv, hagree⟩ := h member hm
    rw [he, getMember?_eq_some hkothers ho, Option.some.injEq] at hv
    subst hv
    exact ⟨member.value, he ▸ getMember?_eq_some hk hm, ih member hm (hothers other ho) hagree⟩

theorem IsRead.agrees_trans {left middle right : Json} (hl : left.IsRead)
    (h : left.agrees middle = true) (h' : middle.agrees right = true) :
    left.agrees right = true := by
  induction hl generalizing middle right with
  | scalar hs =>
    have hm := isScalar_of_agrees hs h
    exact (agrees_scalar hs).mpr (((agrees_scalar hs).mp h).trans ((agrees_scalar hm).mp h'))
  | array _ ih =>
    obtain ⟨_, rfl, hitems⟩ := agrees_array.mp h
    obtain ⟨_, rfl, hitems'⟩ := agrees_array.mp h'
    refine agrees_array.mpr ⟨_, rfl, forall₂_trans hitems hitems' ?_⟩
    exact fun item hi _ _ hagree hagree' => ih item hi hagree hagree'
  | object hk _ ih =>
    obtain ⟨others, rfl, hlength, h⟩ := agrees_object.mp h
    obtain ⟨members, rfl, hlength', h'⟩ := agrees_object.mp h'
    refine agrees_object.mpr ⟨members, rfl, hlength.trans hlength', fun member hm => ?_⟩
    obtain ⟨other, ho, hagree⟩ := h member hm
    obtain ⟨last, hlast, hagree'⟩ := h' _ (exists_of_getMember? ho)
    exact ⟨last, hlast, ih member hm hagree hagree'⟩

-- ---------------------------------------------------------------------------
-- Equality
-- ---------------------------------------------------------------------------

theorem equal_iff {left right : Json} :
    left.equal right = true ↔ left ≠ .float .nan ∧ left.agrees right = true := by
  unfold equal
  split <;> simp_all

theorem ne_nan_of_agrees {left right : Json} (hn : left ≠ .float .nan)
    (h : left.agrees right = true) : right ≠ .float .nan := by
  rintro rfl
  rcases left with _ | _ | _ | x | _ | _ | _ <;>
    simp [agrees, numbersAgree, quantity?] at h
  cases x <;> simp at h hn

theorem IsRead.equal_refl {value : Json} (h : value.IsRead) (hn : value ≠ .float .nan) :
    value.equal value = true :=
  equal_iff.mpr ⟨hn, h.agrees_refl⟩

theorem IsRead.equal_symm {left right : Json} (hl : left.IsRead) (hr : right.IsRead)
    (h : left.equal right = true) : right.equal left = true := by
  obtain ⟨hn, h⟩ := equal_iff.mp h
  exact equal_iff.mpr ⟨ne_nan_of_agrees hn h, hl.agrees_symm hr h⟩

theorem IsRead.equal_trans {left middle right : Json} (hl : left.IsRead)
    (h : left.equal middle = true) (h' : middle.equal right = true) :
    left.equal right = true := by
  obtain ⟨hn, h⟩ := equal_iff.mp h
  exact equal_iff.mpr ⟨hn, hl.agrees_trans h (equal_iff.mp h').2⟩

theorem same_iff {left right : Json} :
    left.same right = true ↔ left.kind = right.kind ∧ left.equal right = true := by
  simp [same]

end Json

end PreviewShots
