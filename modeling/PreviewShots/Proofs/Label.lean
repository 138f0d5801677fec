import PreviewShots.Label

/-!
# Labels by their keys

Tables and sets of labels see nothing of a label but its key. Equal labels have one
key, and a table in which each key stands once may drop rows without showing others.
-/

namespace PreviewShots.Label

theorem key_of_quantity {label : Label} {quantity : Json.Quantity}
    (h : label.quantity? = some quantity) : label.key = .number quantity := by
  cases label <;> simp_all [key, Json.quantity?]

theorem key_eq_of_numbersAgree {left right : Label} (h : Json.numbersAgree left right) :
    left.key = right.key := by
  simp only [Json.numbersAgree, Bool.and_eq_true, decide_eq_true_eq] at h
  obtain ⟨hs, he⟩ := h
  obtain ⟨quantity, hq⟩ := Option.isSome_iff_exists.mp hs
  rw [key_of_quantity hq, key_of_quantity (he ▸ hq)]

/-- Labels that are equal are found in the same place. -/
theorem key_eq_of_equal {left right : Label} (h : left.equal right) : left.key = right.key := by
  cases left with
  | null => cases right <;> simp_all [Json.equal, Json.agrees]
  | string text => cases right <;> simp_all [Json.equal, Json.agrees]
  | array items => cases right <;> simp_all [Json.equal, Json.agrees, key, Json.quantity?]
  | object members => cases right <;> simp_all [Json.equal, Json.agrees, key, Json.quantity?]
  | bool b => exact key_eq_of_numbersAgree (by simpa [Json.equal, Json.agrees] using h)
  | int n => exact key_eq_of_numbersAgree (by simpa [Json.equal, Json.agrees] using h)
  | float x =>
    refine key_eq_of_numbersAgree ?_
    cases x <;> simp_all [Json.equal, Json.agrees]

theorem quantity?_of_key {label : Label} {quantity : Json.Quantity}
    (h : label.key = .number quantity) : label.quantity? = some quantity := by
  cases hq : label.quantity? with
  | some other =>
    rw [key_of_quantity hq] at h
    rw [Key.number.inj h]
  | none => cases label <;> simp_all [key, Json.quantity?]

theorem isScalar_iff {label : Label} : label.isScalar = true ↔ label.key ≠ .compound := by
  rcases label with _ | _ | _ | x | _ | _ | _ <;> try simp [isScalar, key, Json.quantity?]
  cases x <;> simp

/-- A number that is equal to nothing is told by its quantity too. -/
theorem equal_of_quantity {label : Label} {quantity : Json.Quantity} (name : Label)
    (h : label.quantity? = some quantity) :
    label.equal name = (quantity ≠ .nan && name.quantity? = some quantity) := by
  have hagrees : Json.numbersAgree label name = decide (name.quantity? = some quantity) := by
    simp [Json.numbersAgree, h, eq_comm]
  rcases label with _ | _ | _ | x | _ | _ | _ <;> try simp [Json.quantity?] at h
  · subst h
    simpa [Json.equal, Json.agrees] using hagrees
  · subst h
    simpa [Json.equal, Json.agrees] using hagrees
  · cases x <;> simp_all [Json.equal, Json.agrees, Json.quantity?]
    all_goals subst h; simp

theorem eq_null_of_key {label : Label} (h : label.key = .null) : label = .null := by
  rcases label with _ | _ | _ | x | _ | _ | _ <;> try simp [key, Json.quantity?] at h
  · rfl
  · cases x <;> simp at h

theorem eq_string_of_key {label : Label} {text : Text} (h : label.key = .text text) :
    label = .string text := by
  rcases label with _ | _ | _ | x | _ | _ | _ <;> try simp [key, Json.quantity?] at h
  · cases x <;> simp at h
  · rw [h]

/-- What a label is equal to, is told by its key. -/
theorem equal_congr {left right : Label} (name : Label) (hs : left.isScalar)
    (h : left.key = right.key) : left.equal name = right.equal name := by
  cases hk : right.key with
  | null => rw [eq_null_of_key hk, eq_null_of_key (h.trans hk)]
  | text text => rw [eq_string_of_key hk, eq_string_of_key (h.trans hk)]
  | number quantity =>
    rw [equal_of_quantity name (quantity?_of_key hk),
      equal_of_quantity name (quantity?_of_key (h.trans hk))]
  | compound => exact absurd (h.trans hk) (isScalar_iff.mp hs)

-- ---------------------------------------------------------------------------
-- Sets
-- ---------------------------------------------------------------------------

theorem has_iff {labels : List Label} {label : Label} :
    has labels label = true ↔ ∃ other ∈ labels, other.key = label.key := by
  simp [has]

theorem eq_of_texts? {labels : List Label} {texts : List Text} (h : texts? labels = some texts) :
    texts = labels.map nameText := by
  induction labels generalizing texts with
  | nil =>
    cases h
    rfl
  | cons label labels ih =>
    cases label with
    | string text =>
      obtain ⟨rest, hrest, rfl⟩ := Option.map_eq_some_iff.mp h
      simp [← ih hrest]
    | _ => simp [texts?] at h

theorem not_mem_keys {labels : List Label} {label : Label} (h : has labels label = false) :
    label.key ∉ labels.map key := by
  simpa [has] using h

-- ---------------------------------------------------------------------------
-- Tables
-- ---------------------------------------------------------------------------

section

variable {α : Type} {rows : List (Label × α)}

theorem find?_congr {left right : Label} (h : left.key = right.key) :
    find? left rows = find? right rows := by
  simp [find?, h]

theorem find?_eq_none {label : Label} :
    find? label rows = none ↔ ∀ row ∈ rows, row.1.key ≠ label.key := by
  simp [find?]

theorem exists_row_of_find? {label : Label} {value : α} (h : find? label rows = some value) :
    ∃ row ∈ rows, row.1.key = label.key ∧ row.2 = value := by
  simp only [find?, Option.map_eq_some_iff] at h
  obtain ⟨row, hf, rfl⟩ := h
  exact ⟨row, List.mem_of_find?_eq_some hf, by simpa using List.find?_some hf, rfl⟩

/-- Each key stands in one row. -/
def Distinct (rows : List (Label × α)) : Prop :=
  (rows.map (·.1.key)).Nodup

theorem Distinct.find?_eq_some (h : Distinct rows) {row : Label × α} (hm : row ∈ rows) :
    find? row.1 rows = some row.2 := by
  induction rows with
  | nil => simp at hm
  | cons first rest ih =>
    simp only [Distinct, List.map_cons, List.nodup_cons] at h
    rcases List.mem_cons.mp hm with rfl | hm
    · simp [find?]
    · have hne : first.1.key ≠ row.1.key := by
        intro he
        exact h.1 (List.mem_map.mpr ⟨row, hm, he.symm⟩)
      simpa [find?, hne] using ih h.2 hm

theorem Distinct.filter (h : Distinct rows) (keep : Label × α → Bool) :
    Distinct (rows.filter keep) :=
  h.sublist ((List.filter_sublist).map _)

/-- Of distinct rows a filter keeps what is found, unless it drops that very row. -/
theorem Distinct.find?_filter (h : Distinct rows) (keep : α → Bool) (label : Label) :
    find? label (rows.filter (keep ·.2)) = (find? label rows).filter keep := by
  cases hf : find? label rows with
  | none =>
    rw [find?_eq_none] at hf
    simp only [Option.filter_none, find?_eq_none, List.mem_filter]
    exact fun row hm => hf row hm.1
  | some value =>
    obtain ⟨row, hm, hk, rfl⟩ := exists_row_of_find? hf
    cases hp : keep row.2 with
    | true =>
      have hr := (h.filter (keep ·.2)).find?_eq_some (List.mem_filter.mpr ⟨hm, hp⟩)
      rw [Option.filter_some, hp, ← find?_congr hk, hr]
      rfl
    | false =>
      simp only [Option.filter_some, hp, Bool.false_eq_true, ↓reduceIte, find?_eq_none,
        List.mem_filter]
      rintro other ⟨ho, hkeep⟩ hko
      have he := h.find?_eq_some ho
      rw [find?_congr (hko.trans hk.symm), h.find?_eq_some hm] at he
      simp_all

/-- Of the rows of one key the last one counts. -/
theorem find?_tableOf (label : Label) (rows : List (Label × α)) :
    find? label (tableOf rows) =
      (rows.reverse.find? fun row => row.1.key = label.key).map (·.2) := by
  have hfold (table : List (Label × α)) :
      find? label (rows.foldl (fun table row => put row.1 row.2 table) table) =
        ((rows.reverse.find? fun row => row.1.key = label.key).map (·.2)).or
          (find? label table) := by
    induction rows generalizing table with
    | nil => rfl
    | cons row rest ih =>
      rw [List.foldl_cons, ih, find?_put, List.reverse_cons, List.find?_append, Option.map_or,
        Option.or_assoc]
      by_cases h : row.1.key = label.key
      · simp [h]
      · simp [h, Ne.symm h]
  rw [tableOf, hfold []]
  exact Option.or_none

theorem keys_put (label : Label) (value : α) :
    (put label value rows).map (·.1.key) =
      if label.key ∈ rows.map (·.1.key) then rows.map (·.1.key)
      else rows.map (·.1.key) ++ [label.key] := by
  induction rows with
  | nil => simp [put]
  | cons row rest ih =>
    by_cases hr : row.1.key = label.key
    · simp [put, hr]
    · simp only [put, hr, ↓reduceIte, List.map_cons, ih, List.mem_cons, Ne.symm hr, false_or]
      split <;> rfl

theorem Distinct.put (h : Distinct rows) (label : Label) (value : α) :
    Distinct (put label value rows) := by
  unfold Distinct at h ⊢
  rw [keys_put]
  split
  · exact h
  · next hn =>
    refine List.nodup_append.mpr ⟨h, by simp, ?_⟩
    rintro key hm _ he rfl
    exact hn (List.mem_singleton.mp he ▸ hm)

theorem mem_put {label : Label} {value : α} {row : Label × α} (h : row ∈ put label value rows) :
    row ∈ rows ∨ row.2 = value := by
  induction rows with
  | nil => simp_all [put]
  | cons first rest ih =>
    simp only [put] at h
    split at h
    · rcases List.mem_cons.mp h with rfl | h
      · exact .inr rfl
      · exact .inl (List.mem_cons_of_mem _ h)
    · rcases List.mem_cons.mp h with rfl | h
      · exact .inl List.mem_cons_self
      · exact (ih h).imp_left (List.mem_cons_of_mem _)

end

end PreviewShots.Label
