import PreviewShots.Proofs.Generation

/-!
# What becomes of files

Files are written at paths, rewritten in their places, or removed. In each case all other
files stay as they are; and as long as no directory comes or goes, paths lead where they
led.
-/

namespace PreviewShots

namespace FileTree

variable {tree tree' other : FileTree} {path : Path} {location : Location}

-- ---------------------------------------------------------------------------
-- Files written at paths
-- ---------------------------------------------------------------------------

/-- No file is gone, and only files that the paths lead to are new or differ. -/
structure Writes (paths : List Path) (tree tree' : FileTree) : Prop where
  kept : ∀ {location bytes}, tree.at? location = some (.file bytes) →
    ∃ content, tree'.at? location = some (.file content)
  others : ∀ {location}, (∀ path ∈ paths, tree'.locate path ≠ .found location) →
    ∀ bytes, tree'.at? location = some (.file bytes) ↔ tree.at? location = some (.file bytes)

/-- The paths were filled, and each of them is one that a file can be put at. -/
structure Puts (paths : List Path) (tree tree' : FileTree) : Prop where
  fills : Fills paths tree tree'
  fit : ∀ path ∈ paths, path.IsFit tree.working

theorem Puts.refl (tree : FileTree) : Puts [] tree tree :=
  ⟨.refl tree, by simp⟩

theorem puts_of_place? {bytes : ByteArray} (h : tree.place? path bytes = some tree') :
    Puts [path] tree tree' :=
  ⟨fills_of_place? h, by simpa using (isPut_of_place? h).fit⟩

theorem Puts.append {paths more : List Path} (h : Puts paths tree tree')
    (h' : Puts more tree' other) : Puts (paths ++ more) tree other :=
  ⟨h.fills.append h'.fills, List.forall_mem_append.mpr ⟨h.fit, h.fills.medium_eq ▸ h'.fit⟩⟩

theorem puts_of_foldlM {α : Type} {place : α → Path} {content : α → ByteArray} {items : List α}
    (h : items.foldlM (fun tree item => tree.place? (place item) (content item)) tree =
      some tree') : Puts (items.map place) tree tree' :=
  ⟨fills_of_foldlM h, List.forall_mem_map.mpr (isFit_of_foldlM h)⟩

theorem puts_of_placeReport? {violations : List Violation}
    (h : Plan.placeReport? path violations tree = some tree') :
    Puts (if violations.isEmpty then [] else [path]) tree tree' := by
  cases violations with
  | nil =>
    cases h
    exact .refl tree
  | cons violation violations => exact puts_of_place? h

theorem Puts.writes {paths : List Path} (h : Puts paths tree tree') : Writes paths tree tree' where
  kept := h.fills.files
  others := by
    intro location hapart bytes
    have hmedium := h.fills.medium_eq
    rcases h.fills.elsewhere location with heq | ⟨path, hm, hstop | rfl⟩
    · rw [heq]
    · -- a directory that was made is no file, and was none before
      have hd := (h.fills.holds path hm).stops location (hmedium ▸ hstop)
      refine ⟨fun hf => ?_, fun hf => ?_⟩
      · simp [hd] at hf
      · obtain ⟨_, hf'⟩ := h.fills.files hf
        simp [hd] at hf'
    · have hlocate := (h.fills.holds path hm).locate (hmedium ▸ h.fit path hm)
      exact absurd (hmedium ▸ hlocate) (hapart path hm)

-- ---------------------------------------------------------------------------
-- Files rewritten in their places
-- ---------------------------------------------------------------------------

/-- The trees differ in the contents of such files at most. -/
structure Rewrites (rewritten : Location → Prop) (tree tree' : FileTree) : Prop where
  medium_eq : tree'.toMedium = tree.toMedium
  entries : ∀ location, tree'.at? location = tree.at? location ∨ rewritten location ∧
    (∃ old, tree.at? location = some (.file old)) ∧ ∃ new, tree'.at? location = some (.file new)

variable {rewritten more : Location → Prop}

theorem Rewrites.refl (rewritten : Location → Prop) (tree : FileTree) :
    Rewrites rewritten tree tree :=
  ⟨rfl, fun _ => .inl rfl⟩

theorem Rewrites.mono (h : Rewrites rewritten tree tree')
    (hmore : ∀ location, rewritten location → more location) : Rewrites more tree tree' :=
  ⟨h.medium_eq, fun location => (h.entries location).imp_right (.imp_left (hmore location))⟩

theorem Rewrites.trans (h : Rewrites rewritten tree tree') (h' : Rewrites rewritten tree' other) :
    Rewrites rewritten tree other := by
  refine ⟨h'.medium_eq.trans h.medium_eq, fun location => ?_⟩
  rcases h.entries location with heq | ⟨hr, hold, hnew⟩
  · rw [← heq]
    exact h'.entries location
  · rcases h'.entries location with heq' | ⟨-, -, hnew'⟩
    · exact .inr ⟨hr, hold, heq' ▸ hnew⟩
    · exact .inr ⟨hr, hold, hnew'⟩

theorem Rewrites.isDirectory_eq (h : Rewrites rewritten tree tree') (location : Location) :
    tree'.isDirectory location = tree.isDirectory location := by
  rcases h.entries location with heq | ⟨-, ⟨old, hold⟩, ⟨new, hnew⟩⟩
  · simp [isDirectory, heq]
  · simp [isDirectory, hold, hnew]

theorem Rewrites.locate (h : Rewrites rewritten tree tree') (path : Path) :
    tree'.locate path = tree.locate path :=
  locate_congr h.medium_eq h.isDirectory_eq path

/-- A file that is there and written once more. -/
theorem rewrites_of_write? {bytes old : ByteArray} (hread : tree.read? path = some old)
    (h : tree.write? path bytes = some tree') :
    Rewrites (fun location => tree.locate path = .found location) tree tree' := by
  obtain ⟨location, hlocate, hd, -, rfl⟩ := write?_eq_some.mp h
  obtain ⟨found, hfound, hold⟩ := read?_eq_some.mp hread
  obtain rfl : found = location := Lead.found.inj (hfound.symm.trans hlocate)
  refine ⟨rfl, fun other => ?_⟩
  rw [at?_set (isAbove_of_not_isDirectory hd)]
  by_cases ho : other = found
  · subst ho
    exact .inr ⟨hlocate, ⟨old, hold⟩, ⟨bytes, by simp⟩⟩
  · exact .inl (by simp [ho])

-- ---------------------------------------------------------------------------
-- Files removed
-- ---------------------------------------------------------------------------

theorem remove?_eq_some (h : tree.remove? path = some tree') :
    ∃ location, tree.locate path = .found location ∧ tree.isDirectory location = false ∧
      tree' = tree.erase location := by
  unfold remove? at h
  split at h
  · next location hlocate =>
    split at h
    · next bytes hfile =>
      cases h
      exact ⟨location, hlocate, by simp [isDirectory, hfile], rfl⟩
    · cases h
  · cases h

theorem isDirectory_erase (h : tree.isDirectory location = false) (other : Location) :
    (tree.erase location).isDirectory other = tree.isDirectory other := by
  have ha := isAbove_of_not_isDirectory h
  by_cases ho : other = location
  · subst ho
    rw [h]
    simp [isDirectory, at?_erase ha]
  · simp [isDirectory, at?_erase ha, ho]

end FileTree

end PreviewShots
