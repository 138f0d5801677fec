import PreviewShots.Json.Reader
import PreviewShots.Label

/-!
# Values that were read

Whatever the text, the objects of the value that is read from it hold each key once
(`Json.isRead_of_parse`).
-/

namespace PreviewShots

section

variable {ε α β : Type} {answer : Except ε α} {result : β}

theorem bind_eq_ok {next : α → Except ε β} :
    answer >>= next = .ok result ↔ ∃ value, answer = .ok value ∧ next value = .ok result := by
  cases answer <;> simp [bind, Except.bind]

theorem map_eq_ok {change : α → β} :
    answer.map change = .ok result ↔ ∃ value, answer = .ok value ∧ change value = result := by
  cases answer <;> simp [Except.map]

end

-- ---------------------------------------------------------------------------
-- Members by key
-- ---------------------------------------------------------------------------

theorem keys_setMember (key : Text) (value : Json) (members : List Member) :
    (setMember key value members).map (·.key) =
      if key ∈ members.map (·.key) then members.map (·.key)
      else members.map (·.key) ++ [key] := by
  induction members with
  | nil => simp [setMember]
  | cons first rest ih =>
    by_cases hf : first.key = key
    · simp [setMember, hf]
    · simp only [setMember, hf, ↓reduceIte, List.map_cons, ih, List.mem_cons, Ne.symm hf,
        false_or]
      split <;> rfl

theorem nodup_keys_setMember {members : List Member} (h : (members.map (·.key)).Nodup)
    (key : Text) (value : Json) : ((setMember key value members).map (·.key)).Nodup := by
  rw [keys_setMember]
  split
  · exact h
  · next hn =>
    refine List.nodup_append.mpr ⟨h, by simp, ?_⟩
    rintro other hm _ he rfl
    exact hn (List.mem_singleton.mp he ▸ hm)

theorem mem_setMember {key : Text} {value : Json} {member : Member} {members : List Member}
    (h : member ∈ setMember key value members) : member ∈ members ∨ member.value = value := by
  induction members with
  | nil => simp_all [setMember]
  | cons first rest ih =>
    simp only [setMember] at h
    split at h
    · rcases List.mem_cons.mp h with rfl | h
      · exact .inr rfl
      · exact .inl (List.mem_cons_of_mem _ h)
    · rcases List.mem_cons.mp h with rfl | h
      · exact .inl List.mem_cons_self
      · exact (ih h).imp_left (List.mem_cons_of_mem _)

theorem exists_of_getMember? {key : Text} {value : Json} {members : List Member}
    (h : getMember? key members = some value) : ⟨key, value⟩ ∈ members := by
  induction members with
  | nil => simp [getMember?] at h
  | cons first rest ih =>
    simp only [getMember?] at h
    split at h
    · next hk =>
      obtain ⟨firstKey, firstValue⟩ := first
      cases hk
      cases h
      exact List.mem_cons_self
    · exact List.mem_cons_of_mem _ (ih h)

/-- Where each key stands once, every member is found. -/
theorem getMember?_eq_some {member : Member} {members : List Member}
    (h : (members.map (·.key)).Nodup) (hm : member ∈ members) :
    getMember? member.key members = some member.value := by
  induction members with
  | nil => simp at hm
  | cons first rest ih =>
    simp only [List.map_cons, List.nodup_cons] at h
    rcases List.mem_cons.mp hm with rfl | hm
    · simp [getMember?]
    · have hne : first.key ≠ member.key := by
        intro he
        exact h.1 (List.mem_map.mpr ⟨member, hm, he.symm⟩)
      simpa [getMember?, hne] using ih h.2 hm

namespace Json

-- ---------------------------------------------------------------------------
-- What is read
-- ---------------------------------------------------------------------------

/-- Every object in it holds each key once. -/
inductive IsRead : Json → Prop
  | scalar {value : Json} : Label.isScalar value → IsRead value
  | array {items : List Json} : (∀ item ∈ items, IsRead item) → IsRead (.array items)
  | object {members : List Member} : (members.map (·.key)).Nodup →
      (∀ member ∈ members, IsRead member.value) → IsRead (.object members)

@[simp] theorem isRead_bool (value : Bool) : IsRead (.bool value) := .scalar rfl

@[simp] theorem isRead_int (value : Int) : IsRead (.int value) := .scalar rfl

@[simp] theorem isRead_float (value : Binary64) : IsRead (.float value) := .scalar rfl

@[simp] theorem isRead_string (text : Text) : IsRead (.string text) := .scalar rfl

@[simp] theorem isRead_array {items : List Json} :
    IsRead (.array items) ↔ ∀ item ∈ items, item.IsRead := by
  constructor
  · intro h
    cases h with
    | scalar hs => cases hs
    | array hitems => exact hitems
  · exact .array

@[simp] theorem isRead_object {members : List Member} :
    IsRead (.object members) ↔
      (members.map (·.key)).Nodup ∧ ∀ member ∈ members, member.value.IsRead := by
  constructor
  · intro h
    cases h with
    | scalar hs => cases hs
    | object hk hmembers => exact ⟨hk, hmembers⟩
  · exact fun h => .object h.1 h.2

theorem isRead_of_literal? {text rest : List Char} {found : Json}
    (h : literal? text = some (found, rest)) : found.IsRead := by
  unfold literal? at h
  split at h <;> cases h <;> exact .scalar rfl

theorem isRead_of_integer {limit : Option Nat} {negative : Bool} {digits : List Char}
    {found : Json} (h : integer limit negative digits = .ok found) : found.IsRead := by
  unfold integer at h
  split at h <;> cases h
  exact .scalar rfl

theorem isRead_of_number {limit : Option Nat} {text rest : List Char} {found : Json}
    (h : number limit text = .ok (found, rest)) : found.IsRead := by
  unfold number at h
  repeat' split at h
  · cases h
  · cases h
    exact .scalar rfl
  · obtain ⟨value, hi, he⟩ := map_eq_ok.mp h
    cases he
    exact isRead_of_integer hi
  · cases h
    exact .scalar rfl

/-- Calls with that fuel return, if anything, what holds each key once. -/
structure Reads (limit : Option Nat) (fuel : Nat) : Prop where
  value {text rest : List Char} {found : Json} :
    value limit fuel text = .ok (found, rest) → found.IsRead
  items {text rest : List Char} {found : List Json} :
    items limit fuel text = .ok (found, rest) → IsRead (.array found)
  members {before found : List Member} {text rest : List Char} : IsRead (.object before) →
    members limit fuel before text = .ok (found, rest) → IsRead (.object found)

theorem Reads.value_succ {limit : Option Nat} {fuel : Nat} (h : Reads limit fuel)
    {text rest : List Char} {found : Json}
    (hr : Json.value limit (fuel + 1) text = .ok (found, rest)) : found.IsRead := by
  cases text with
  | nil => cases hr
  | cons c cs =>
    unfold Json.value at hr
    repeat' split at hr
    · cases hr
      exact .scalar rfl
    · cases hr
    · cases hr
      exact .array (by simp)
    · obtain ⟨⟨items, after⟩, hi, he⟩ := map_eq_ok.mp hr
      cases he
      exact h.items hi
    · cases hr
      exact .object (by simp) (by simp)
    · obtain ⟨⟨members, after⟩, hm, he⟩ := map_eq_ok.mp hr
      cases he
      exact h.members (.object (by simp) (by simp)) hm
    · next hl =>
      cases hr
      exact isRead_of_literal? hl
    · exact isRead_of_number hr

theorem Reads.items_succ {limit : Option Nat} {fuel : Nat} (h : Reads limit fuel)
    {text rest : List Char} {found : List Json}
    (hr : Json.items limit (fuel + 1) text = .ok (found, rest)) : IsRead (.array found) := by
  unfold Json.items at hr
  obtain ⟨⟨item, after⟩, hi, hr⟩ := bind_eq_ok.mp hr
  dsimp only at hr
  split at hr
  · cases hr
    exact .array (by simpa using h.value hi)
  · obtain ⟨⟨items, last⟩, hs, he⟩ := bind_eq_ok.mp hr
    cases he
    exact .array (List.forall_mem_cons.mpr ⟨h.value hi, isRead_array.mp (h.items hs)⟩)
  · cases hr

theorem IsRead.setMember {members : List Member} (h : IsRead (.object members)) (key : Text)
    {value : Json} (hv : value.IsRead) : IsRead (.object (setMember key value members)) := by
  obtain ⟨hk, hmembers⟩ := isRead_object.mp h
  refine .object (nodup_keys_setMember hk key value) fun member hmem => ?_
  rcases mem_setMember hmem with hmem | he
  · exact hmembers member hmem
  · exact he ▸ hv

theorem Reads.members_succ {limit : Option Nat} {fuel : Nat} (h : Reads limit fuel)
    {before found : List Member} {text rest : List Char} (hb : IsRead (.object before))
    (hr : Json.members limit (fuel + 1) before text = .ok (found, rest)) :
    IsRead (.object found) := by
  unfold Json.members at hr
  split at hr
  · next hf =>
    cases hf
    repeat' split at hr
    · cases hr
    · obtain ⟨⟨value, after⟩, hv, hr⟩ := bind_eq_ok.mp hr
      have hafter (key : Text) := hb.setMember key (h.value hv)
      dsimp only at hr
      split at hr
      · cases hr
        exact hafter _
      · exact h.members (hafter _) hr
      · cases hr
    · cases hr
  · cases hr

theorem reads (limit : Option Nat) (fuel : Nat) : Reads limit fuel := by
  induction fuel with
  | zero => exact ⟨nofun, nofun, nofun⟩
  | succ fuel ih => exact ⟨ih.value_succ, ih.items_succ, ih.members_succ⟩

/-- Whatever the text, what is read from it holds each key once. -/
theorem isRead_of_parse {limit : Option Nat} {text : List Char} {value : Json}
    (h : parse limit text = .ok value) : value.IsRead := by
  unfold parse at h
  obtain ⟨⟨found, rest⟩, hv, h⟩ := bind_eq_ok.mp h
  dsimp only at h
  split at h
  · cases h
    exact (reads ..).value hv
  · cases h

end Json

end PreviewShots
