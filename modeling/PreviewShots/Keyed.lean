/-!
# Lists of keyed values

A list of pairs read as a table: the first pair of a key counts. Putting a value
keeps the place of a key that is there already and appends one that is not.
-/

namespace PreviewShots.Keyed

variable {κ : Type} [BEq κ] {ν : Type}

def put (key : κ) (value : ν) : List (κ × ν) → List (κ × ν)
  | [] => [(key, value)]
  | pair :: rest => if pair.1 == key then (key, value) :: rest else pair :: put key value rest

def erase (key : κ) (table : List (κ × ν)) : List (κ × ν) :=
  table.filter fun pair => !pair.1 == key

variable [LawfulBEq κ]

theorem lookup_cons_ne {key other : κ} (value : ν) (rest : List (κ × ν)) (h : other ≠ key) :
    ((key, value) :: rest).lookup other = rest.lookup other := by
  have hb : (other == key) = false := by simpa using h
  simp [List.lookup_cons, hb]

theorem put_put (key : κ) (value later : ν) (table : List (κ × ν)) :
    put key later (put key value table) = put key later table := by
  induction table with
  | nil => simp [put]
  | cons pair rest ih =>
    by_cases h : pair.1 = key <;> simp [put, h, ih]

theorem lookup_put (key other : κ) (value : ν) (table : List (κ × ν)) :
    (put key value table).lookup other = if other == key then some value else table.lookup other := by
  induction table with
  | nil =>
    by_cases h : other = key
    · simp [put, h]
    · rw [put, lookup_cons_ne _ _ h]
      simp [h]
  | cons pair rest ih =>
    obtain ⟨k, v⟩ := pair
    by_cases hk : k = key
    · subst hk
      by_cases h : other = k
      · simp [put, h]
      · simp [put, lookup_cons_ne _ _ h, h]
    · by_cases ho : other = k
      · subst ho
        simp [put, hk]
      · simp [put, hk, lookup_cons_ne _ _ ho, ih]

theorem lookup_erase (key other : κ) (table : List (κ × ν)) :
    (erase key table).lookup other = if other == key then none else table.lookup other := by
  induction table with
  | nil => simp [erase]
  | cons pair rest ih =>
    obtain ⟨k, v⟩ := pair
    by_cases hk : k = key
    · have he : erase key ((k, v) :: rest) = erase key rest := by simp [erase, hk]
      rw [he, ih]
      by_cases h : other = key
      · simp [h]
      · simp [h, lookup_cons_ne v rest (hk ▸ h : other ≠ k)]
    · have he : erase key ((k, v) :: rest) = (k, v) :: erase key rest := by simp [erase, hk]
      rw [he]
      by_cases ho : other = k
      · subst ho
        simp [hk]
      · rw [lookup_cons_ne _ _ ho, lookup_cons_ne _ _ ho, ih]

end PreviewShots.Keyed
