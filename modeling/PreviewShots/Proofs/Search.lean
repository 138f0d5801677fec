import PreviewShots.Search

/-!
# What searches find

A search that is not stuck finds what the test without look-ups would find; a search
that is stuck met an item on which the test is stuck.
-/

namespace PreviewShots.Search

variable {α β : Type}

@[simp] theorem found?_pure (a : α) : (pure a : Search α).found? = some a := rfl

@[simp] theorem found?_bind (search : Search α) (next : α → Search β) :
    (search >>= next).found? = search.found?.bind fun a => (next a).found? := by
  simp only [bind]
  cases search.found? <;> rfl

/-- The first item that passes, up to which no test is stuck. -/
theorem isSome_of_find? {test : α → Search Bool} {items : List α} {first : Option α}
    (h : (find? test items).found? = some first) :
    first.isSome ↔ ∃ a ∈ items, (test a).found? = some true := by
  induction items with
  | nil =>
    obtain rfl : none = first := by simpa [find?] using h
    simp
  | cons a rest ih =>
    simp only [find?, found?_bind, Option.bind_eq_some_iff] at h
    obtain ⟨passes, ha, h⟩ := h
    cases passes with
    | true =>
      obtain rfl : some a = first := by simpa using h
      simp [ha]
    | false => simpa [ha] using ih (by simpa using h)

theorem mem_of_find? {test : α → Search Bool} {items : List α} {a : α}
    (h : (find? test items).found? = some (some a)) : a ∈ items := by
  induction items with
  | nil => simp [find?] at h
  | cons b rest ih =>
    simp only [find?, found?_bind, Option.bind_eq_some_iff] at h
    obtain ⟨passes, -, h⟩ := h
    cases passes with
    | true =>
      obtain rfl : b = a := by simpa using h
      exact List.mem_cons_self
    | false => exact List.mem_cons_of_mem _ (ih (by simpa using h))

theorem exists_stuck_of_find? {test : α → Search Bool} {items : List α}
    (h : (find? test items).found? = none) : ∃ a ∈ items, (test a).found? = none := by
  induction items with
  | nil => simp [find?] at h
  | cons a rest ih =>
    cases ha : (test a).found? with
    | none => exact ⟨a, List.mem_cons_self, ha⟩
    | some passes =>
      simp only [find?, found?_bind, ha, Option.bind_some] at h
      cases passes with
      | true => simp at h
      | false =>
        obtain ⟨b, hb, hs⟩ := ih (by simpa using h)
        exact ⟨b, List.mem_cons_of_mem _ hb, hs⟩

theorem mem_of_filter {test : α → Search Bool} {items kept : List α}
    (h : (filter test items).found? = some kept) {a : α} :
    a ∈ kept ↔ a ∈ items ∧ (test a).found? = some true := by
  induction items generalizing kept with
  | nil =>
    obtain rfl : [] = kept := by simpa [filter] using h
    simp
  | cons b rest ih =>
    simp only [filter, found?_bind, Option.bind_eq_some_iff, found?_pure, Option.some.injEq] at h
    obtain ⟨passes, hb, later, hl, rfl⟩ := h
    have hr := ih hl
    cases passes with
    | true =>
      simp only [↓reduceIte, List.mem_cons, hr]
      constructor
      · rintro (rfl | ⟨hm, ha⟩)
        · exact ⟨.inl rfl, hb⟩
        · exact ⟨.inr hm, ha⟩
      · rintro ⟨rfl | hm, ha⟩
        · exact .inl rfl
        · exact .inr ⟨hm, ha⟩
    | false =>
      simp only [Bool.false_eq_true, ↓reduceIte, List.mem_cons, hr]
      constructor
      · exact fun ⟨hm, ha⟩ => ⟨.inr hm, ha⟩
      · rintro ⟨rfl | hm, ha⟩
        · simp [hb] at ha
        · exact ⟨hm, ha⟩

theorem exists_answer_of_filter {test : α → Search Bool} {items kept : List α}
    (h : (filter test items).found? = some kept) {a : α} (ha : a ∈ items) :
    ∃ passes, (test a).found? = some passes := by
  induction items generalizing kept with
  | nil => simp at ha
  | cons b rest ih =>
    simp only [filter, found?_bind, Option.bind_eq_some_iff] at h
    obtain ⟨passes, hb, later, hl, _⟩ := h
    rcases List.mem_cons.mp ha with rfl | ha
    · exact ⟨passes, hb⟩
    · exact ih hl ha

theorem exists_stuck_of_filter {test : α → Search Bool} {items : List α}
    (h : (filter test items).found? = none) : ∃ a ∈ items, (test a).found? = none := by
  induction items with
  | nil => simp [filter] at h
  | cons a rest ih =>
    cases ha : (test a).found? with
    | none => exact ⟨a, List.mem_cons_self, ha⟩
    | some passes =>
      simp only [filter, found?_bind, ha, Option.bind_some, Option.bind_eq_none_iff,
        found?_pure] at h
      obtain ⟨b, hb, hs⟩ := ih (by
        cases hr : (filter test rest).found? with
        | none => rfl
        | some later => exact absurd (h later hr) (by simp))
      exact ⟨b, List.mem_cons_of_mem _ hb, hs⟩

theorem found?_all_eq_true {test : α → Search Bool} {items : List α} :
    (all test items).found? = some true ↔ ∀ a ∈ items, (test a).found? = some true := by
  induction items with
  | nil => simp [all]
  | cons a rest ih =>
    rw [all, found?_bind, List.forall_mem_cons, ← ih]
    rcases (test a).found? with _ | _ | _ <;> simp

-- ---------------------------------------------------------------------------
-- Tests that find the same
-- ---------------------------------------------------------------------------

section

variable {test test' : α → Search Bool} {items : List α}

theorem found?_find?_congr (h : ∀ a ∈ items, (test' a).found? = (test a).found?) :
    (find? test' items).found? = (find? test items).found? := by
  induction items with
  | nil => rfl
  | cons a rest ih =>
    obtain ⟨ha, hrest⟩ := List.forall_mem_cons.mp h
    simp only [find?, found?_bind, ha]
    refine Option.bind_congr fun passes _ => ?_
    cases passes with
    | true => rfl
    | false => exact ih hrest

theorem found?_all_congr (h : ∀ a ∈ items, (test' a).found? = (test a).found?) :
    (all test' items).found? = (all test items).found? := by
  induction items with
  | nil => rfl
  | cons a rest ih =>
    obtain ⟨ha, hrest⟩ := List.forall_mem_cons.mp h
    simp only [all, found?_bind, ha]
    refine Option.bind_congr fun passes _ => ?_
    cases passes with
    | true => exact ih hrest
    | false => rfl

end

end PreviewShots.Search
