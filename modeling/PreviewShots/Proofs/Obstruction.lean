import PreviewShots.Proofs.Emission
import PreviewShots.Proofs.Placement

/-!
# Entries in the way

An entry obstructs a path if it is a file on the way or a directory in the place. With
such entries removed, files are put in place where they could be before, and the trees
differ at most beneath what was removed (`Lacks.place?`). Of what is removed nothing was put
in place: a path through it would meet the obstructed one (`at?_of_isBeneath`).
-/

namespace PreviewShots

theorem Keyed.lookup_filter {κ ν : Type} [BEq κ] [LawfulBEq κ] (keep : κ → Bool) (key : κ)
    (table : List (κ × ν)) : (table.filter fun pair => keep pair.1).lookup key =
      if keep key then table.lookup key else none := by
  induction table with
  | nil => simp
  | cons pair rest ih =>
    obtain ⟨k, v⟩ := pair
    by_cases hk : key = k
    · subst hk
      cases hkeep : keep key with
      | false => simpa [hkeep] using ih
      | true => simp [hkeep]
    · cases hkeep : keep k <;> simp [hkeep, lookup_cons_ne _ _ hk, ih]

theorem Medium.isAbove_iff {medium : Medium} {location : Location} :
    medium.isAbove location = true ↔ location <+: medium.working :=
  List.isPrefixOf_iff_prefix

namespace FileTree

variable {tree tree' other : FileTree} {path : Path} {bytes : ByteArray} {location : Location}
  {removed : List Location}

-- ---------------------------------------------------------------------------
-- Removal
-- ---------------------------------------------------------------------------

/-- The tree without what is at the locations and beneath them. -/
def without (tree : FileTree) (removed : List Location) : FileTree :=
  { tree with
    entries := tree.entries.filter fun (location, _) => !removed.any (·.isPrefixOf location) }

/-- The location is one of those, or beneath one. -/
def IsBeneath (removed : List Location) (location : Location) : Prop :=
  ∃ above ∈ removed, above <+: location

theorem any_isPrefixOf_iff :
    removed.any (·.isPrefixOf location) = true ↔ IsBeneath removed location := by
  simp [IsBeneath]

@[simp] theorem without_toMedium (tree : FileTree) (removed : List Location) :
    (tree.without removed).toMedium = tree.toMedium := rfl

theorem at?_without (tree : FileTree) (removed : List Location) (location : Location) :
    (tree.without removed).at? location = if tree.isAbove location then some .directory
      else if removed.any (·.isPrefixOf location) then none else tree.at? location := by
  have hlookup := Keyed.lookup_filter (fun other => !removed.any (·.isPrefixOf other)) location
    tree.entries
  by_cases ha : tree.isAbove location = true
  · simp [ha, at?]
  · simp only [at?, ha, without, hlookup]
    cases removed.any (·.isPrefixOf location) <;> simp

theorem at?_without_of_not (h : ¬ IsBeneath removed location) :
    (tree.without removed).at? location = tree.at? location := by
  rw [at?_without, Bool.eq_false_iff.mpr (mt any_isPrefixOf_iff.mp h)]
  by_cases ha : tree.isAbove location = true
  · simp [ha, tree.at?_of_isAbove ha]
  · simp [ha]

theorem at?_without_of_isBeneath (tree : FileTree) (h : IsBeneath removed location)
    (ha : tree.isAbove location = false) : (tree.without removed).at? location = none := by
  simp [at?_without, ha, any_isPrefixOf_iff.mpr h]

-- ---------------------------------------------------------------------------
-- Trees that lack entries of others
-- ---------------------------------------------------------------------------

/-- What can be put in place in a tree, can be put in place where nothing more is in the way. -/
theorem exists_place?_of_place? (hplace : tree.place? path bytes = some tree')
    (hmedium : other.toMedium = tree.toMedium)
    (hstops : ∀ stop ∈ path.stops tree.working, other.at? stop = tree.at? stop ∨
      ∀ content, other.at? stop ≠ some (.file content))
    (hend : other.at? (path.place tree.working) = tree.at? (path.place tree.working) ∨
      other.at? (path.place tree.working) ≠ some .directory) :
    ∃ other', other.place? path bytes = some other' := by
  have hput := isPut_of_place? hplace
  have hopen : other.IsOpen path := by
    refine ⟨fun stop hm content hfile => ?_, fun hd => ?_⟩
    · rw [hmedium] at hm
      rcases hstops stop hm with heq | hnone
      · exact hput.isOpen.stops stop hm content (heq ▸ hfile)
      · exact hnone content hfile
    · rw [hmedium] at hd
      rcases hend with heq | hnone
      · exact hput.isOpen.place (heq ▸ hd)
      · exact hnone hd
  exact exists_place? (hmedium ▸ hput.fit) hopen (hput.taken.congr hmedium)

/-- The second tree is the first one without some of the entries at such locations. -/
structure Lacks (gone : Location → Prop) (tree tree' : FileTree) : Prop where
  medium_eq : tree'.toMedium = tree.toMedium
  entries : ∀ location, tree'.at? location = tree.at? location ∨
    gone location ∧ tree'.at? location = none

theorem lacks_without (tree : FileTree) (removed : List Location) :
    Lacks (IsBeneath removed) tree (tree.without removed) := by
  refine ⟨rfl, fun location => ?_⟩
  by_cases hb : IsBeneath removed location
  · cases ha : tree.isAbove location with
    | true => exact .inl (by rw [tree.at?_of_isAbove ha, (tree.without removed).at?_of_isAbove ha])
    | false => exact .inr ⟨hb, at?_without_of_isBeneath _ hb ha⟩
  · exact .inl (at?_without_of_not hb)

/-- A file is put in place in a tree that lacks entries as it is where they are. -/
theorem Lacks.place? {gone : Location → Prop} (h : Lacks gone tree other)
    (hplace : tree.place? path bytes = some tree') :
    ∃ other', other.place? path bytes = some other' ∧ Lacks gone tree' other' := by
  have hput := isPut_of_place? hplace
  obtain ⟨other', hplace'⟩ := exists_place?_of_place? hplace h.medium_eq
    (fun stop _ => (h.entries stop).imp_right fun ⟨_, hnone⟩ => by simp [hnone])
    ((h.entries _).imp_right fun ⟨_, hnone⟩ => by simp [hnone])
  have hput' := isPut_of_place? hplace'
  refine ⟨other', hplace', ?_, fun location => ?_⟩
  · rw [hput'.medium_eq, hput.medium_eq, h.medium_eq]
  · rw [hput'.at_eq, hput.at_eq, h.medium_eq]
    split
    · exact .inl rfl
    split
    · exact .inl rfl
    · exact h.entries location

/-- The trees have the same entries. -/
structure Same (tree tree' : FileTree) : Prop where
  medium_eq : tree'.toMedium = tree.toMedium
  at_eq : ∀ location, tree'.at? location = tree.at? location

theorem Same.place? (h : Same tree other) (hplace : tree.place? path bytes = some tree') :
    ∃ other', other.place? path bytes = some other' ∧ Same tree' other' := by
  have hlacks : Lacks (fun _ => False) tree other := ⟨h.medium_eq, fun l => .inl (h.at_eq l)⟩
  obtain ⟨other', hplace', hlacks'⟩ := hlacks.place? hplace
  exact ⟨other', hplace', hlacks'.medium_eq,
    fun location => (hlacks'.entries location).resolve_right And.left⟩

theorem Same.locate (h : Same tree tree') (path : Path) : tree'.locate path = tree.locate path :=
  locate_congr h.medium_eq (fun location => by simp only [isDirectory, h.at_eq location]) path

theorem Same.isThere? (h : Same tree tree') (path : Path) :
    tree'.isThere? path = tree.isThere? path := by
  simp only [FileTree.isThere?, h.locate, h.at_eq]

theorem Same.read? (h : Same tree tree') (path : Path) : tree'.read? path = tree.read? path := by
  simp only [FileTree.read?, entry?, h.locate, h.at_eq]

-- ---------------------------------------------------------------------------
-- Trees with more directories on the way
-- ---------------------------------------------------------------------------

/-- A file reads the same where all that its path comes by is the same. -/
theorem read?_congr (hfit : path.IsFit tree.working) (hmedium : tree'.toMedium = tree.toMedium)
    (h : ∀ location, location ∈ path.stops tree.working ∨ location = path.place tree.working →
      tree'.at? location = tree.at? location) : tree'.read? path = tree.read? path := by
  have hfit' : path.IsFit tree'.working := hmedium ▸ hfit
  have hall : (path.stops tree.working).all tree'.isDirectory =
      (path.stops tree.working).all tree.isDirectory := by
    rw [Bool.eq_iff_iff, List.all_eq_true, List.all_eq_true]
    refine forall₂_congr fun stop hm => ?_
    rw [isDirectory_iff, isDirectory_iff, h stop (.inl hm)]
  have hlocate : tree'.locate path = tree.locate path := by
    rw [locate_eq hfit', locate_eq hfit, hmedium, hall]
  simp only [FileTree.read?, entry?, hlocate]
  cases hl : tree.locate path with
  | found location => simp only [h location (.inr (of_locate_eq_found hl).2.2.1)]
  | absent => rfl
  | tooLong => rfl

/-- The second tree has more directories on the way of the path, at most. -/
structure Paved (path : Path) (tree tree' : FileTree) : Prop where
  medium_eq : tree'.toMedium = tree.toMedium
  entries : ∀ location, tree'.at? location = tree.at? location ∨ tree.at? location = none ∧
    tree'.at? location = some .directory ∧ location ∈ path.stops tree.working

theorem Same.paved (h : Same tree tree') (path : Path) : Paved path tree tree' :=
  ⟨h.medium_eq, fun location => .inl (h.at_eq location)⟩

theorem Tried.paved (h : Tried path tree tree') : Paved path tree tree' := by
  refine ⟨h.extends.medium_eq, ?_⟩
  cases h with
  | untouched => exact fun _ => .inl rfl
  | made => exact at?_makeDirectories tree path

/-- Directories on the way make no difference to a file that is put in place. -/
theorem Paved.place? (h : Paved path tree other) (hplace : tree.place? path bytes = some tree') :
    ∃ other', other.place? path bytes = some other' ∧ Same tree' other' := by
  have hput := isPut_of_place? hplace
  obtain ⟨other', hplace'⟩ := exists_place?_of_place? hplace h.medium_eq
    (fun stop _ => (h.entries stop).imp_right fun ⟨_, hdirectory, _⟩ => by simp [hdirectory])
    ((h.entries _).imp_right fun ⟨_, _, hm⟩ => absurd hm hput.fit.apart)
  have hput' := isPut_of_place? hplace'
  refine ⟨other', hplace', ?_, fun location => ?_⟩
  · rw [hput'.medium_eq, hput.medium_eq, h.medium_eq]
  · rw [hput'.at_eq, hput.at_eq, h.medium_eq]
    split
    · rfl
    split
    · rfl
    · next hm => exact (h.entries location).resolve_right fun hmore => hm hmore.2.2

/-- A file at the path reads the same in the second tree, and is put in place as in the first. -/
structure Serves (path : Path) (tree tree' : FileTree) : Prop where
  paved : Paved path tree tree'
  there : tree'.isThere? path = tree.isThere? path
  read : tree'.read? path = tree.read? path

theorem Same.serves (h : Same tree tree') (path : Path) : Serves path tree tree' :=
  ⟨h.paved path, h.isThere? path, h.read? path⟩

-- ---------------------------------------------------------------------------
-- Several files
-- ---------------------------------------------------------------------------

/-- Files were put in place at the paths, one after the other. -/
structure Fills (paths : List Path) (tree tree' : FileTree) : Prop where
  medium_eq : tree'.toMedium = tree.toMedium
  directories : ∀ {location}, tree.at? location = some .directory →
    tree'.at? location = some .directory
  files : ∀ {location bytes}, tree.at? location = some (.file bytes) →
    ∃ content, tree'.at? location = some (.file content)
  holds : ∀ path ∈ paths, tree'.Holds path
  elsewhere : ∀ location, tree'.at? location = tree.at? location ∨
    ∃ path ∈ paths, location ∈ path.stops tree.working ∨ location = path.place tree.working

theorem Fills.refl (tree : FileTree) : Fills [] tree tree :=
  ⟨rfl, id, fun hf => ⟨_, hf⟩, by simp, fun _ => .inl rfl⟩

theorem fills_of_place? (h : tree.place? path bytes = some tree') : Fills [path] tree tree' := by
  have hput := isPut_of_place? h
  refine ⟨hput.medium_eq, fun {location} hd => ?_, fun {location content} hf => ?_,
    by simpa using holds_of_place? h, fun location => ?_⟩
  · have hne : location ≠ path.place tree.working := by
      rintro rfl
      exact hput.isOpen.place hd
    rw [hput.at_eq, if_neg hne]
    split
    · rfl
    · exact hd
  · rw [hput.at_eq]
    split
    · exact ⟨bytes, rfl⟩
    split
    · next hm => exact absurd hf (hput.isOpen.stops location hm content)
    · exact ⟨content, hf⟩
  · rw [hput.at_eq]
    split
    · next hplace => exact .inr ⟨path, by simp, .inr hplace⟩
    split
    · next hm => exact .inr ⟨path, by simp, .inl hm⟩
    · exact .inl rfl

theorem Fills.holds_of_holds {paths : List Path} (h : Fills paths tree tree')
    (hh : tree.Holds path) : tree'.Holds path := by
  refine ⟨fun stop hm => h.directories (hh.stops stop (h.medium_eq ▸ hm)), ?_⟩
  obtain ⟨_, hf⟩ := hh.place
  rw [h.medium_eq]
  exact h.files hf

theorem Fills.append {paths more : List Path} (h : Fills paths tree tree')
    (h' : Fills more tree' other) : Fills (paths ++ more) tree other := by
  refine ⟨h'.medium_eq.trans h.medium_eq, fun hd => h'.directories (h.directories hd),
    fun hf => ?_, fun path hm => ?_, fun location => ?_⟩
  · obtain ⟨_, hf'⟩ := h.files hf
    exact h'.files hf'
  · rcases List.mem_append.mp hm with hm | hm
    · exact h'.holds_of_holds (h.holds path hm)
    · exact h'.holds path hm
  · rcases h'.elsewhere location with heq | ⟨path, hm, hpath⟩
    · rcases h.elsewhere location with heq' | ⟨path, hm, hpath⟩
      · exact .inl (heq.trans heq')
      · exact .inr ⟨path, List.mem_append_left _ hm, hpath⟩
    · rw [h.medium_eq] at hpath
      exact .inr ⟨path, List.mem_append_right _ hm, hpath⟩

theorem fills_of_foldlM {α : Type} {place : α → Path} {content : α → ByteArray} {items : List α}
    (h : items.foldlM (fun tree item => tree.place? (place item) (content item)) tree =
      some tree') : Fills (items.map place) tree tree' := by
  induction items generalizing tree with
  | nil =>
    cases h
    exact .refl _
  | cons item items ih =>
    obtain ⟨between, hplace, hrest⟩ := Option.bind_eq_some_iff.mp h
    exact (fills_of_place? hplace).append (ih hrest)

-- ---------------------------------------------------------------------------
-- Obstructed paths
-- ---------------------------------------------------------------------------

/-- The entry at the location keeps files from the path: it is a file on the way, or a
directory in the place. -/
def Obstructs (tree : FileTree) (location : Location) (path : Path) : Prop :=
  location ∈ path.stops tree.working ∧ (∃ bytes, tree.at? location = some (.file bytes)) ∨
    location = path.place tree.working ∧ tree.at? location = some .directory

theorem exists_obstructs (h : ¬ tree.IsOpen path) : ∃ location, tree.Obstructs location path := by
  refine Classical.byContradiction fun hnone => h ⟨fun stop hm bytes hfile => ?_, fun hd => ?_⟩
  · exact hnone ⟨stop, .inl ⟨hm, bytes, hfile⟩⟩
  · exact hnone ⟨_, .inr ⟨rfl, hd⟩⟩

theorem Holds.isOpen (h : tree.Holds path) : tree.IsOpen path := by
  refine ⟨fun stop hm bytes hfile => ?_, fun hd => ?_⟩
  · simp [h.stops stop hm] at hfile
  · obtain ⟨bytes, hfile⟩ := h.place
    simp [hd] at hfile

/-- What obstructs a path that is filled in the end is not above the working directory. -/
theorem isAbove_of_obstructs {all : List Path} {whole : FileTree}
    (hwhole : Fills all (tree.without removed) whole) (hpath : path ∈ all)
    (hobstructs : tree.Obstructs location path) : tree.isAbove location = false := by
  rcases hobstructs with ⟨-, bytes, hfile⟩ | ⟨rfl, -⟩
  · exact isAbove_eq_false hfile (by simp)
  · obtain ⟨bytes, hfile⟩ := (hwhole.holds path hpath).place
    rw [hwhole.medium_eq] at hfile
    have hbelow := isAbove_eq_false hfile (by simp)
    rwa [hwhole.medium_eq] at hbelow

/-- A path that is open before the obstructing entries are removed does not come by them, if
all of the paths can be filled together. -/
theorem not_isBeneath_of_isOpen {paths all : List Path} {filled whole : FileTree}
    (hfilled : Fills paths tree filled) (hopen : filled.IsOpen path)
    (hwhole : Fills all (tree.without removed) whole) (hpath : path ∈ all)
    (hobstruct : ∀ above ∈ removed, ∃ path ∈ all, tree.Obstructs above path)
    (hmem : location ∈ path.stops tree.working ∨ location = path.place tree.working) :
    ¬ IsBeneath removed location := by
  rintro ⟨above, hremoved, hbegins⟩
  obtain ⟨other, hother, hobstructs⟩ := hobstruct above hremoved
  have habove := isAbove_of_obstructs hwhole hother hobstructs
  have hon := (Path.mem_of_prefix_place hmem hbegins).resolve_right fun hworking =>
    Bool.eq_false_iff.mp habove (Medium.isAbove_iff.mpr hworking)
  have hstops := hopen.stops
  have hplace := hopen.place
  have hholds := hwhole.holds other hother
  have hfar := hwhole.holds path hpath
  rw [hfilled.medium_eq] at hstops hplace
  obtain ⟨_, hfile⟩ := hholds.place
  obtain ⟨_, hfile'⟩ := hfar.place
  have hdirectories := hholds.stops
  have hdirectories' := hfar.stops
  rw [hwhole.medium_eq] at hfile hfile' hdirectories hdirectories'
  -- the path takes the obstructing entry for what it is not
  rcases hobstructs with ⟨hstop, bytes, hentry⟩ | ⟨rfl, hentry⟩
  · obtain ⟨content, hentry'⟩ := hfilled.files hentry
    rcases hon with hm | rfl
    · exact hstops above hm content hentry'
    · simp [hdirectories _ hstop] at hfile'
  · have hentry' := hfilled.directories hentry
    rcases hon with hm | he
    · simp [hdirectories' _ hm] at hfile
    · exact hplace (he ▸ hentry')

/-- Beneath obstructing entries that were removed nothing is put in place, if all of the
paths can be filled together. -/
theorem at?_of_isBeneath {paths all : List Path} {filled filled' whole : FileTree}
    (hfilled : Fills paths tree filled) (hfilled' : Fills paths (tree.without removed) filled')
    (hwhole : Fills all (tree.without removed) whole) (hsub : paths ⊆ all)
    (hobstruct : ∀ above ∈ removed, ∃ path ∈ all, tree.Obstructs above path)
    (hbeneath : IsBeneath removed location) : filled'.at? location = none := by
  have hbelow : tree.isAbove location = false := by
    obtain ⟨above, hremoved, hbegins⟩ := hbeneath
    obtain ⟨path, hpath, hobstructs⟩ := hobstruct above hremoved
    have habove := isAbove_of_obstructs hwhole hpath hobstructs
    refine Bool.eq_false_iff.mpr fun ha => Bool.eq_false_iff.mp habove ?_
    exact Medium.isAbove_iff.mpr (hbegins.trans (Medium.isAbove_iff.mp ha))
  rcases hfilled'.elsewhere location with heq | ⟨other, hother, hmem⟩
  · exact heq.trans (at?_without_of_isBeneath _ hbeneath hbelow)
  · exact absurd hbeneath (not_isBeneath_of_isOpen hfilled (hfilled.holds other hother).isOpen
      hwhole (hsub hother) hobstruct hmem)

/-- What obstructs a path in one tree and not in another one, is missing there. -/
theorem Lacks.at?_of_obstructs {gone : Location → Prop} (h : Lacks gone tree tree')
    (hobstructs : tree.Obstructs location path) (hopen : tree'.IsOpen path) :
    gone location ∧ tree'.at? location = none := by
  refine (h.entries location).resolve_left fun heq => ?_
  rcases hobstructs with ⟨hm, bytes, hfile⟩ | ⟨rfl, hd⟩
  · exact hopen.stops location (h.medium_eq ▸ hm) bytes (heq.trans hfile)
  · rw [← h.medium_eq] at heq hd
    exact hopen.place (heq.trans hd)

/-- What is left when a file could not be put in place is no more than directories on the
way to it, once the obstructing entries are removed. -/
theorem paved_of_tried {filled filled' left : FileTree} (htried : Tried path filled left)
    (hlacks : Lacks (IsBeneath removed) filled filled')
    (hclear : ∀ location, IsBeneath removed location → filled'.at? location = none) :
    Paved path filled' (left.without removed) := by
  have hpaved := htried.paved
  have hmedium : left.toMedium = filled'.toMedium := by
    rw [hpaved.medium_eq, hlacks.medium_eq]
  refine ⟨hmedium, fun location => ?_⟩
  by_cases hb : IsBeneath removed location
  · have hnone := hclear location hb
    have ha : left.isAbove location = false := hmedium ▸ isAbove_eq_false hnone (by simp)
    exact .inl (hnone ▸ at?_without_of_isBeneath _ hb ha)
  · have heq := (hlacks.entries location).resolve_right fun h => hb h.1
    rw [at?_without_of_not hb, heq, hlacks.medium_eq]
    exact hpaved.entries location

/-- Nothing is at a path that was obstructed once the obstructing entries are removed: it
reads the same as where the file never was tried. -/
theorem serves_of_tried {filled filled' left : FileTree} (hfit : path.IsFit filled.working)
    (htried : Tried path filled left) (hlacks : Lacks (IsBeneath removed) filled filled')
    (hclear : ∀ location, IsBeneath removed location → filled'.at? location = none)
    (hbarred : ¬ filled.IsOpen path) (hopen : filled'.IsOpen path) :
    Serves path filled' (left.without removed) := by
  obtain ⟨location, hobstructs⟩ := exists_obstructs hbarred
  have hmem : location ∈ path.stops filled.working ∨ location = path.place filled.working :=
    hobstructs.imp And.left And.left
  have hpaved := paved_of_tried htried hlacks hclear
  obtain ⟨hbeneath, hnone⟩ := hlacks.at?_of_obstructs hobstructs hopen
  have hbelow : left.isAbove location = false := by
    have ha : filled'.isAbove location = false := isAbove_eq_false hnone (by simp)
    rwa [← hpaved.medium_eq, without_toMedium] at ha
  have hleft := at?_without_of_isBeneath left hbeneath hbelow
  rw [← hlacks.medium_eq] at hfit hmem
  have hthere := isThere?_of_missing hfit hmem hnone
  rw [← hpaved.medium_eq] at hfit hmem
  have hthere' := isThere?_of_missing hfit hmem hleft
  exact ⟨hpaved, hthere'.trans hthere.symm,
    (read?_of_isThere? hthere').trans (read?_of_isThere? hthere).symm⟩

end FileTree

theorem Plan.fills_placeReport? {path : Path} {violations : List Violation} {tree tree' : FileTree}
    (h : placeReport? path violations tree = some tree') :
    FileTree.Fills (if violations.isEmpty then [] else [path]) tree tree' := by
  cases violations with
  | nil =>
    cases h
    exact .refl _
  | cons violation violations => exact FileTree.fills_of_place? h

end PreviewShots
