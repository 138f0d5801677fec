import PreviewShots.FileTree

/-!
# Files put in place

A file is put in place by making the directories above it, opening it and filling it.
Where that succeeds the file reads back, since no directory gave way to it. Nothing else
gave way either: another file reads back as before, unless its path leads to the same
place.
-/

namespace PreviewShots.FileTree

variable {tree tree' : FileTree} {path : Path} {bytes : ByteArray}

/-- A file that was opened and filled. -/
def write? (tree : FileTree) (path : Path) (bytes : ByteArray) : Option FileTree :=
  match tree.opened? path with
  | some opened => match opened.fill path bytes with
    | (filled, true) => some filled
    | (_, false) => none
  | none => none

def place? (tree : FileTree) (path : Path) (bytes : ByteArray) : Option FileTree :=
  match tree.makeDirectories path.parent with
  | (made, true) => made.write? path bytes
  | (_, false) => none

theorem at?_of_isAbove (tree : FileTree) {location : Location}
    (h : tree.isAbove location = true) : tree.at? location = some .directory := by
  simp [at?, h]

theorem isAbove_eq_false {location : Location} {found : Option Entry}
    (h : tree.at? location = found) (hne : found ≠ some .directory) :
    tree.isAbove location = false :=
  Bool.eq_false_iff.mpr fun ha => hne (h.symm.trans (tree.at?_of_isAbove ha))

theorem isDirectory_iff {location : Location} :
    tree.isDirectory location = true ↔ tree.at? location = some .directory := by
  simp only [isDirectory]
  split <;> simp_all

theorem isAbove_of_not_isDirectory {location : Location} (h : tree.isDirectory location = false) :
    tree.isAbove location = false :=
  Bool.eq_false_iff.mpr fun ha =>
    Bool.eq_false_iff.mp h (isDirectory_iff.mpr (tree.at?_of_isAbove ha))

theorem set_set (tree : FileTree) (location : Location) (entry later : Entry) :
    (tree.set location entry).set location later = tree.set location later := by
  simp [set, Keyed.put_put]

theorem isDirectory_set_file (bytes : ByteArray) {location : Location}
    (h : tree.isDirectory location = false) (other : Location) :
    (tree.set location (.file bytes)).isDirectory other = tree.isDirectory other := by
  have ha := isAbove_of_not_isDirectory h
  by_cases ho : other = location
  · subst ho
    rw [h]
    simp [isDirectory, at?_set ha]
  · simp [isDirectory, at?_set ha, ho]

theorem follow_congr (h : ∀ location, tree'.isDirectory location = tree.isDirectory location)
    (start : Location) (parts : List Text) :
    tree'.follow start parts = tree.follow start parts := by
  induction parts generalizing start with
  | nil => rfl
  | cons part parts ih => simp only [follow, h, ih]

theorem locate_congr (hmedium : tree'.toMedium = tree.toMedium)
    (h : ∀ location, tree'.isDirectory location = tree.isDirectory location)
    (path : Path) : tree'.locate path = tree.locate path := by
  simp only [locate, hmedium, follow_congr h]

theorem opened?_eq_some {opened : FileTree} : tree.opened? path = some opened ↔
    ∃ location, tree.locate path = .found location ∧ tree.isDirectory location = false ∧
      opened = tree.set location (.file .empty) := by
  simp only [opened?]
  split
  · next location hlocate =>
    simp only [hlocate, Lead.found.injEq, exists_eq_left']
    cases hd : tree.isDirectory location with
    | true => simp
    | false => simpa using eq_comm
  · next hother => simpa using fun location hlocate => absurd hlocate (hother location)

/-- What filling a file comes to that was opened. -/
theorem fill_of_opened {location : Location} (hlocate : tree.locate path = .found location)
    (hd : tree.isDirectory location = false) (bytes : ByteArray) :
    (tree.set location (.file .empty)).fill path bytes =
      match tree.breaks? location bytes with
      | none => (tree.set location (.file bytes), true)
      | some size => (tree.set location (.file (bytes.extract 0 size)), false) := by
  have hsame := isDirectory_set_file .empty hd
  have hlocate' := (locate_congr (set_toMedium ..) hsame path).trans hlocate
  cases hbreaks : tree.breaks? location bytes <;>
    simp only [fill, hlocate', hsame location, hd, set_toMedium, hbreaks, set_set,
      Bool.false_eq_true, ↓reduceIte]

theorem write?_eq_some : tree.write? path bytes = some tree' ↔
    ∃ location, tree.locate path = .found location ∧ tree.isDirectory location = false ∧
      tree.breaks? location bytes = none ∧ tree' = tree.set location (.file bytes) := by
  constructor
  · intro h
    simp only [write?] at h
    split at h
    case h_2 => cases h
    next opened hopened =>
    obtain ⟨location, hlocate, hd, rfl⟩ := opened?_eq_some.mp hopened
    rw [fill_of_opened hlocate hd] at h
    cases hbreaks : tree.breaks? location bytes with
    | none => exact ⟨location, hlocate, hd, hbreaks, by simpa [hbreaks, eq_comm] using h⟩
    | some size => simp [hbreaks] at h
  · rintro ⟨location, hlocate, hd, hbreaks, rfl⟩
    have hopened := opened?_eq_some.mpr ⟨location, hlocate, hd, rfl⟩
    simp only [write?, hopened, fill_of_opened hlocate hd, hbreaks]

/-- What is written reads back. -/
theorem read?_write? (h : tree.write? path bytes = some tree') : tree'.read? path = some bytes := by
  obtain ⟨location, hlocate, hd, -, rfl⟩ := write?_eq_some.mp h
  have hsame := locate_congr (set_toMedium ..) (isDirectory_set_file bytes hd) path
  simp [read?, entry?, hsame, hlocate, at?_set (isAbove_of_not_isDirectory hd)]

theorem place?_eq_some : tree.place? path bytes = some tree' ↔
    ∃ made, tree.makeDirectories path.parent = (made, true) ∧
      made.write? path bytes = some tree' := by
  simp only [place?]
  rcases tree.makeDirectories path.parent with ⟨made, _ | _⟩ <;> simp

theorem read?_place? (h : tree.place? path bytes = some tree') : tree'.read? path = some bytes := by
  obtain ⟨made, -, hwrite⟩ := place?_eq_some.mp h
  exact read?_write? hwrite

theorem read?_of_isThere? (h : tree.isThere? path = some false) : tree.read? path = none := by
  simp only [isThere?, read?, entry?] at *
  cases hl : tree.locate path with
  | found location =>
    have hnone : tree.at? location = none := by simpa [hl] using h
    simp [hnone]
  | absent => rfl
  | tooLong => rfl

/-- Nothing is at the path, or a text. -/
def IsReadable (tree : FileTree) (path : Path) : Prop :=
  tree.isThere? path = some false ∨ tree.isThere? path = some true ∧
    ∃ bytes text, tree.read? path = some bytes ∧ String.fromUTF8? bytes = some text

-- ---------------------------------------------------------------------------
-- What stays
-- ---------------------------------------------------------------------------

/-- Every entry of the first tree is one of the second. -/
structure Extends (tree tree' : FileTree) : Prop where
  medium_eq : tree'.toMedium = tree.toMedium
  entries : ∀ location entry, tree.at? location = some entry → tree'.at? location = some entry

/-- Every directory of the first tree is one of the second. -/
structure Grows (tree tree' : FileTree) : Prop where
  medium_eq : tree'.toMedium = tree.toMedium
  directories : ∀ location, tree.isDirectory location = true → tree'.isDirectory location = true

theorem Extends.refl (tree : FileTree) : Extends tree tree :=
  ⟨rfl, fun _ _ => id⟩

theorem Extends.trans {between : FileTree} (h : Extends tree between)
    (h' : Extends between tree') : Extends tree tree' :=
  ⟨h'.medium_eq.trans h.medium_eq, fun _ _ he => h'.entries _ _ (h.entries _ _ he)⟩

theorem Extends.grows (h : Extends tree tree') : Grows tree tree' := by
  refine ⟨h.medium_eq, fun location hd => ?_⟩
  rw [isDirectory_iff] at *
  exact h.entries location .directory hd

theorem Grows.trans {between : FileTree} (h : Grows tree between) (h' : Grows between tree') :
    Grows tree tree' :=
  ⟨h'.medium_eq.trans h.medium_eq, fun _ hd => h'.directories _ (h.directories _ hd)⟩

theorem grows_set_file (bytes : ByteArray) {location : Location}
    (h : tree.isDirectory location = false) : Grows tree (tree.set location (.file bytes)) :=
  ⟨set_toMedium .., fun other ho => (isDirectory_set_file bytes h other).trans ho⟩

theorem Grows.follow (h : Grows tree tree') {start location : Location} {parts : List Text}
    (hf : tree.follow start parts = .found location) :
    tree'.follow start parts = .found location := by
  induction parts generalizing start with
  | nil => exact hf
  | cons part parts ih =>
    simp only [FileTree.follow] at hf ⊢
    cases hd : tree.isDirectory start with
    | false => simp [hd] at hf
    | true =>
      simp only [hd, h.directories start hd, Bool.not_true, Bool.false_eq_true, ↓reduceIte] at hf ⊢
      split at hf
      · next hup => exact (if_pos hup).trans (ih hf)
      next hdown =>
      rw [if_neg hdown]
      split at hf
      · simp at hf
      next hfits =>
      rw [if_neg hfits]
      exact ih hf

theorem Grows.locate (h : Grows tree tree') {location : Location}
    (hl : tree.locate path = .found location) : tree'.locate path = .found location := by
  simp only [FileTree.locate, h.medium_eq] at hl ⊢
  split at hl
  · simp at hl
  next hfits =>
  rw [if_neg hfits]
  exact h.follow hl

theorem extends_makeOne (tree : FileTree) (location : Location) :
    Extends tree (tree.makeOne location).1 := by
  simp only [makeOne]
  split
  · exact .refl tree
  · exact .refl tree
  · next hnone =>
    refine ⟨set_toMedium .., fun other entry he => ?_⟩
    have hne : (other == location) = false := by
      simpa using fun heq : other = location => by simp [heq, hnone] at he
    rw [at?_set (isAbove_eq_false hnone (by simp)), hne]
    exact he

theorem extends_makeAll (tree : FileTree) (start : Location) (parts : List Text) :
    Extends tree (tree.makeAll start parts).1 := by
  induction parts with
  | nil => exact .refl tree
  | cons part above ih =>
    simp only [makeAll]
    split
    · exact extends_makeOne tree _
    · exact .refl tree
    · split
      · next made hmade => exact hmade ▸ ih
      · next made hmade =>
        have hmore : Extends tree made := by simpa [hmade] using ih
        split
        · exact hmore.trans (extends_makeOne made _)
        · exact hmore

theorem extends_makeDirectories (tree : FileTree) (path : Path) :
    Extends tree (tree.makeDirectories path).1 := by
  simp only [makeDirectories]
  split
  · exact .refl tree
  · exact extends_makeAll tree _ _

/-- A file that is put in place is at one location, and all else stays what it was. -/
structure Placed (path : Path) (bytes : ByteArray) (location : Location) (tree tree' : FileTree) :
    Prop where
  leads : tree'.locate path = .found location
  at_eq : tree'.at? location = some (.file bytes)
  grows : Grows tree tree'
  others : ∀ other entry, other ≠ location → tree.at? other = some entry →
    tree'.at? other = some entry

theorem placed_of_set {made : FileTree} {location : Location}
    (hmade : tree.makeDirectories path.parent = (made, true))
    (hlocate : made.locate path = .found location) (hd : made.isDirectory location = false)
    (bytes : ByteArray) : Placed path bytes location tree (made.set location (.file bytes)) := by
  have hextends : Extends tree made := by
    simpa [hmade] using extends_makeDirectories tree path.parent
  have ha := isAbove_of_not_isDirectory hd
  have hgrows := grows_set_file bytes hd
  refine ⟨hgrows.locate hlocate, ?_, hextends.grows.trans hgrows, ?_⟩
  · simp [at?_set ha]
  · intro other entry hne he
    have hother : (other == location) = false := by simpa using hne
    rw [at?_set ha, hother]
    exact hextends.entries other entry he

theorem placed_of_place? (h : tree.place? path bytes = some tree') :
    ∃ location, Placed path bytes location tree tree' := by
  obtain ⟨made, hmade, hwrite⟩ := place?_eq_some.mp h
  obtain ⟨location, hlocate, hd, -, rfl⟩ := write?_eq_some.mp hwrite
  exact ⟨location, placed_of_set hmade hlocate hd bytes⟩

/-- A file that was opened and not filled to the end is in its place, with a part of the
bytes. -/
theorem placed_of_fill {made opened : FileTree}
    (hmade : tree.makeDirectories path.parent = (made, true))
    (hopened : made.opened? path = some opened) (h : opened.fill path bytes = (tree', false)) :
    ∃ part location, Placed path part location tree tree' ∧
      (tree.breaks? location bytes).isSome = true := by
  obtain ⟨location, hlocate, hd, rfl⟩ := opened?_eq_some.mp hopened
  rw [fill_of_opened hlocate hd] at h
  have hplaced (part : ByteArray) := placed_of_set hmade hlocate hd part
  have hextends : Extends tree made := by
    simpa [hmade] using extends_makeDirectories tree path.parent
  cases hbreaks : made.breaks? location bytes with
  | none => simp [hbreaks] at h
  | some size =>
    obtain rfl : made.set location (.file (bytes.extract 0 size)) = tree' := by
      simpa [hbreaks] using h
    exact ⟨_, location, hplaced _, by rw [← hextends.medium_eq, hbreaks]; rfl⟩

theorem read?_eq_some : tree.read? path = some bytes ↔
    ∃ location, tree.locate path = .found location ∧ tree.at? location = some (.file bytes) := by
  simp only [read?, entry?]
  cases tree.locate path with
  | found location =>
    simp only [Lead.found.injEq, exists_eq_left']
    cases tree.at? location with
    | none => simp
    | some entry => cases entry <;> simp
  | absent => simp
  | tooLong => simp

/-- The paths lead to one place. -/
def Meet (tree : FileTree) (path other : Path) : Prop :=
  ∃ location, tree.locate path = .found location ∧ tree.locate other = .found location

theorem Grows.meet {other : Path} (h : Grows tree tree') (hm : tree.Meet path other) :
    tree'.Meet path other := by
  obtain ⟨location, hl, hl'⟩ := hm
  exact ⟨location, h.locate hl, h.locate hl'⟩

/-- A file reads back as before unless the new one is in its place. -/
theorem Placed.read? {location : Location} (h : Placed path bytes location tree tree')
    {other : Path} {content : ByteArray} (hr : tree.read? other = some content)
    (hapart : ¬ tree'.Meet path other) : tree'.read? other = some content := by
  obtain ⟨found, hl, he⟩ := read?_eq_some.mp hr
  have hl' := h.grows.locate hl
  refine read?_eq_some.mpr ⟨found, hl', h.others found _ ?_ he⟩
  rintro rfl
  exact hapart ⟨found, h.leads, hl'⟩

-- ---------------------------------------------------------------------------
-- Several files
-- ---------------------------------------------------------------------------

section

variable {α : Type} {place : α → Path} {content : α → ByteArray} {items : List α}

theorem grows_of_foldlM
    (h : items.foldlM (fun tree item => tree.place? (place item) (content item)) tree =
      some tree') : Grows tree tree' := by
  induction items generalizing tree with
  | nil =>
    cases h
    exact (Extends.refl _).grows
  | cons item items ih =>
    obtain ⟨between, hplace, hrest⟩ := Option.bind_eq_some_iff.mp h
    obtain ⟨location, hplaced⟩ := placed_of_place? hplace
    exact hplaced.grows.trans (ih hrest)

/-- Where no file that is put in place comes to another one, that one reads back as before. -/
theorem read?_of_foldlM
    (h : items.foldlM (fun tree item => tree.place? (place item) (content item)) tree = some tree')
    (hr : tree.read? path = some bytes) (hapart : ∀ item ∈ items, ¬ tree'.Meet (place item) path) :
    tree'.read? path = some bytes := by
  induction items generalizing tree with
  | nil =>
    cases h
    exact hr
  | cons item items ih =>
    obtain ⟨between, hplace, hrest⟩ := Option.bind_eq_some_iff.mp h
    obtain ⟨location, hplaced⟩ := placed_of_place? hplace
    refine ih hrest (hplaced.read? hr fun hm => ?_) fun other ho =>
      hapart other (List.mem_cons_of_mem _ ho)
    exact hapart item List.mem_cons_self ((grows_of_foldlM hrest).meet hm)

end

end PreviewShots.FileTree
