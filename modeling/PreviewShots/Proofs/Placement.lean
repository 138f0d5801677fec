import Mathlib.Data.List.Induction
import PreviewShots.Proofs.FileTree

/-!
# Where a file is put

A path passes locations on its way to a place, whatever is there. A file is put in place
just when the path is one that a file can have, no file is on the way, no directory in its
place and the medium takes its bytes (`exists_place?_iff`); then all of the way is
directories, and nothing else has changed (`place?_eq_some`).
-/

namespace PreviewShots

theorem Keyed.put_of_lookup {κ ν : Type} [BEq κ] [LawfulBEq κ] {key : κ} {value : ν}
    {table : List (κ × ν)} (h : table.lookup key = some value) : put key value table = table := by
  induction table with
  | nil => simp at h
  | cons pair rest ih =>
    obtain ⟨k, v⟩ := pair
    by_cases hk : k = key
    · subst hk
      obtain rfl : v = value := by simpa using h
      simp [put]
    · rw [lookup_cons_ne _ _ (Ne.symm hk)] at h
      simp [put, hk, ih h]

namespace Location

/-- The location that a part of a path leads on to. -/
def onward (location : Location) (part : Text) : Location :=
  if part = ".." then location.up else location ++ [part.fileName]

/-- The locations that the parts pass, from the first one on. -/
def passed : Location → List Text → List Location
  | _, [] => []
  | location, part :: parts => location :: passed (location.onward part) parts

/-- The location that the parts lead to. -/
def through (location : Location) (parts : List Text) : Location :=
  parts.foldl onward location

theorem through_concat (location : Location) (parts : List Text) (part : Text) :
    location.through (parts ++ [part]) = (location.through parts).onward part := by
  simp [through]

theorem passed_concat (location : Location) (parts : List Text) (part : Text) :
    location.passed (parts ++ [part]) = location.passed parts ++ [location.through parts] := by
  induction parts generalizing location with
  | nil => rfl
  | cons first parts ih => simpa [passed, through] using ih (location.onward first)

/-- All locations that the parts come by, the last one included. -/
def trail (start : Location) (parts : List Text) : List Location :=
  passed start parts ++ [through start parts]

theorem trail_concat (start : Location) (parts : List Text) (part : Text) :
    trail start (parts ++ [part]) = trail start parts ++ [(through start parts).onward part] := by
  rw [trail, passed_concat, through_concat, trail]

theorem through_mem_trail (start : Location) (parts : List Text) :
    through start parts ∈ trail start parts := by
  simp [trail]

theorem prefix_onward {location other : Location} {part : Text}
    (h : other <+: location.onward part) : other = location.onward part ∨ other <+: location := by
  simp only [onward, up] at h ⊢
  split at h
  · exact .inr (h.trans (List.dropLast_prefix location))
  · next hdown =>
    rw [if_neg hdown]
    exact List.prefix_concat_iff.mp h

/-- What holds a location that is come by is come by as well, or was there at the start. -/
theorem mem_trail_of_prefix {start : Location} {parts : List Text} {location other : Location}
    (h : location ∈ trail start parts) (hbegins : other <+: location) :
    other ∈ trail start parts ∨ other <+: start := by
  induction parts using List.reverseRecOn generalizing location with
  | nil =>
    obtain rfl : location = start := by simpa [trail, passed, through] using h
    exact .inr hbegins
  | append_singleton parts part ih =>
    rw [trail_concat] at h ⊢
    rcases List.mem_append.mp h with h | h
    · exact (ih h hbegins).imp_left (List.mem_append_left _)
    · obtain rfl := List.mem_singleton.mp h
      rcases prefix_onward hbegins with rfl | hbegins
      · exact .inl (List.mem_append_right _ h)
      · exact (ih (through_mem_trail start parts) hbegins).imp_left (List.mem_append_left _)

end Location

/-- The parts are names of files, or lead back. -/
def Path.areNames (parts : List Text) : Prop :=
  ∀ part ∈ parts, part = ".." ∨ part.byteSize ≤ FileTree.nameLimit

namespace FileTree

variable {tree tree' : FileTree} {path : Path} {bytes : ByteArray} {start location : Location}

-- ---------------------------------------------------------------------------
-- Following
-- ---------------------------------------------------------------------------

theorem follow_eq_found {parts : List Text} : tree.follow start parts = .found location ↔
    location = start.through parts ∧ (∀ stop ∈ start.passed parts, tree.isDirectory stop = true) ∧
      Path.areNames parts := by
  induction parts generalizing start with
  | nil =>
    simp only [follow, Location.through, Location.passed, Path.areNames, Lead.found.injEq,
      List.foldl_nil, List.not_mem_nil, false_implies, implies_true, and_true]
    exact eq_comm
  | cons part parts ih =>
    simp only [follow, Location.passed, Location.through, List.foldl_cons, List.forall_mem_cons,
      Path.areNames]
    cases hd : tree.isDirectory start with
    | false => simp
    | true =>
      by_cases hup : part = ".."
      · simp [hup, Location.onward, ih, Location.through, Path.areNames]
      · by_cases hlong : nameLimit < part.byteSize
        · simp [hup, hlong, Nat.not_le.mpr hlong]
        · simp [hup, hlong, Nat.not_lt.mp hlong, Location.onward, ih, Location.through,
            Path.areNames]

theorem follow_ne_tooLong {parts : List Text} (h : Path.areNames parts) :
    tree.follow start parts ≠ .tooLong := by
  induction parts generalizing start with
  | nil => simp [follow]
  | cons part parts ih =>
    obtain ⟨hpart, hparts⟩ := List.forall_mem_cons.mp h
    simp only [follow]
    split
    · simp
    split
    · exact ih hparts
    next hdown =>
    rw [if_neg (Nat.not_lt.mpr (hpart.resolve_left hdown))]
    exact ih hparts

-- ---------------------------------------------------------------------------
-- Directories
-- ---------------------------------------------------------------------------

theorem at?_makeOne (tree : FileTree) (location other : Location) :
    (tree.makeOne location).1.at? other = tree.at? other ∨ tree.at? other = none ∧
      (tree.makeOne location).1.at? other = some .directory ∧ other = location := by
  simp only [makeOne]
  split
  · exact .inl rfl
  · exact .inl rfl
  · next hnone =>
    have ha := isAbove_eq_false hnone (by simp)
    by_cases ho : other = location
    · subst ho
      exact .inr ⟨hnone, by simp [at?_set ha], rfl⟩
    · exact .inl (by simp [at?_set ha, ho])

theorem makeOne_eq_true : (tree.makeOne location).2 = true ↔
    ∀ bytes, tree.at? location ≠ some (.file bytes) := by
  simp only [makeOne]
  split <;> simp_all

theorem isDirectory_makeOne (h : (tree.makeOne location).2 = true) :
    (tree.makeOne location).1.isDirectory location = true := by
  simp only [makeOne] at h ⊢
  split
  · next hd => exact isDirectory_iff.mpr hd
  · next hfile => simp [hfile] at h
  · next hnone => simp [isDirectory, at?_set (isAbove_eq_false hnone (by simp))]

/-- Whether all directories could be made or not, there are more directories on the way
at most. -/
theorem at?_makeAll (tree : FileTree) (start : Location) (parts : List Text) (other : Location) :
    (tree.makeAll start parts).1.at? other = tree.at? other ∨ tree.at? other = none ∧
      (tree.makeAll start parts).1.at? other = some .directory ∧
      other ∈ Location.trail start parts.reverse := by
  have hone {made : FileTree} {found : Location} {parts : List Text}
      (hfollow : made.follow start parts = .found found) :
      (made.makeOne found).1.at? other = made.at? other ∨ made.at? other = none ∧
        (made.makeOne found).1.at? other = some .directory ∧
        other ∈ Location.trail start parts := by
    refine (at?_makeOne made found other).imp_right ?_
    rintro ⟨hnone, hd, rfl⟩
    exact ⟨hnone, hd, (follow_eq_found.mp hfollow).1 ▸ Location.through_mem_trail start parts⟩
  induction parts with
  | nil => exact .inl rfl
  | cons part above ih =>
    simp only [makeAll]
    split
    · next found hfollow => exact hone hfollow
    · exact .inl rfl
    rcases hrun : tree.makeAll start above with ⟨made, done⟩
    have habove : made.at? other = tree.at? other ∨ tree.at? other = none ∧
        made.at? other = some .directory ∧
        other ∈ Location.trail start (part :: above).reverse := by
      rw [List.reverse_cons, Location.trail_concat]
      rw [hrun] at ih
      exact ih.imp_right fun ⟨hnone, hd, hm⟩ => ⟨hnone, hd, List.mem_append_left _ hm⟩
    cases done with
    | false => exact habove
    | true =>
      dsimp only
      split
      · next found hfollow =>
        rcases hone hfollow with heq | ⟨hnone, hd, hm⟩
        · exact heq ▸ habove
        · rcases habove with heq | ⟨-, hd', -⟩
          · exact .inr ⟨heq ▸ hnone, hd, hm⟩
          · simp [hnone] at hd'
      · exact habove

theorem isDirectory_makeAll {parts : List Text} (hstart : tree.isDirectory start = true)
    (h : (tree.makeAll start parts).2 = true) :
    Path.areNames parts.reverse ∧ ∀ stop ∈ Location.trail start parts.reverse,
      (tree.makeAll start parts).1.isDirectory stop = true := by
  have hone {made : FileTree} {found : Location} {parts : List Text}
      (hfollow : made.follow start parts = .found found) (h : (made.makeOne found).2 = true) :
      Path.areNames parts ∧ ∀ stop ∈ Location.trail start parts,
        (made.makeOne found).1.isDirectory stop = true := by
    obtain ⟨rfl, hstops, hnames⟩ := follow_eq_found.mp hfollow
    refine ⟨hnames, fun stop hm => ?_⟩
    rcases List.mem_append.mp hm with hm | hm
    · exact (extends_makeOne made _).grows.directories stop (hstops stop hm)
    · obtain rfl := List.mem_singleton.mp hm
      exact isDirectory_makeOne h
  cases parts with
  | nil =>
    refine ⟨by simp [Path.areNames], fun stop hm => ?_⟩
    obtain rfl : stop = start := by
      simpa [Location.trail, Location.passed, Location.through] using hm
    exact hstart
  | cons part above =>
    simp only [makeAll] at h ⊢
    cases hfollow : tree.follow start (part :: above).reverse with
    | found found =>
      rw [hfollow] at h
      exact hone hfollow h
    | tooLong =>
      rw [hfollow] at h
      simp at h
    | absent =>
      rw [hfollow] at h
      rcases hrun : tree.makeAll start above with ⟨made, done⟩
      rw [hrun] at h
      cases done with
      | false => simp at h
      | true =>
        cases hagain : made.follow start (part :: above).reverse with
        | found found =>
          simp only [hagain] at h ⊢
          exact hone hagain h
        | tooLong => simp [-List.reverse_cons, hagain] at h
        | absent => simp [-List.reverse_cons, hagain] at h

/-- Directories that are all there are not made. -/
theorem makeAll_of_isDirectory {parts : List Text} (hnames : Path.areNames parts)
    (h : ∀ stop ∈ Location.trail start parts, tree.isDirectory stop = true) :
    tree.makeAll start parts.reverse = (tree, true) := by
  have hfollow : tree.follow start parts = .found (Location.through start parts) :=
    follow_eq_found.mpr ⟨rfl, fun stop hm => h stop (List.mem_append_left _ hm), hnames⟩
  have hlast := isDirectory_iff.mp (h _ (Location.through_mem_trail start parts))
  cases hparts : parts.reverse with
  | nil => rfl
  | cons part above =>
    rw [← List.reverse_reverse parts, hparts] at hfollow hlast
    simp only [makeAll, hfollow, makeOne, hlast]

/-- With no file on the way the directories can be made. -/
theorem makeAll_of_open {parts : List Text} (hstart : tree.isDirectory start = true)
    (hnames : Path.areNames parts.reverse)
    (hopen : ∀ stop ∈ Location.trail start parts.reverse,
      ∀ bytes, tree.at? stop ≠ some (.file bytes)) :
    (tree.makeAll start parts).2 = true := by
  induction parts with
  | nil => rfl
  | cons part above ih =>
    simp only [makeAll]
    split
    · next found hfollow =>
      refine makeOne_eq_true.mpr (hopen found ?_)
      exact (follow_eq_found.mp hfollow).1 ▸ Location.through_mem_trail _ _
    · next hlong => exact absurd hlong (follow_ne_tooLong hnames)
    · have habove : Path.areNames above.reverse :=
        fun part hm => hnames part (by simpa using .inl (List.mem_reverse.mp hm))
      have hmade := ih habove fun stop hm => hopen stop (by
        rw [List.reverse_cons, Location.trail_concat]
        exact List.mem_append_left _ hm)
      obtain ⟨-, hstops⟩ := isDirectory_makeAll hstart hmade
      have hlast := at?_makeAll tree start above (Location.through start (part :: above).reverse)
      rcases hrun : tree.makeAll start above with ⟨made, done⟩
      rw [hrun] at hmade hstops hlast
      obtain rfl : done = true := hmade
      have hfollow : made.follow start (part :: above).reverse =
          .found (Location.through start (part :: above).reverse) := by
        refine follow_eq_found.mpr ⟨rfl, ?_, hnames⟩
        rwa [List.reverse_cons, Location.passed_concat]
      simp only [hfollow]
      refine makeOne_eq_true.mpr fun bytes hfile => ?_
      rcases hlast with heq | ⟨-, hd, -⟩
      · exact hopen _ (Location.through_mem_trail _ _) bytes (heq ▸ hfile)
      · exact absurd (hfile.symm.trans hd) (by simp)

end FileTree

-- ---------------------------------------------------------------------------
-- Places
-- ---------------------------------------------------------------------------

namespace Path

variable {path : Path} {working : Location}

/-- The location where a file of the path is put. -/
def place (working : Location) (path : Path) : Location :=
  Location.through (path.start working) path.parts

/-- The locations on the way there. -/
def stops (working : Location) (path : Path) : List Location :=
  Location.passed (path.start working) path.parts

theorem start_begins (working : Location) (path : Path) : path.start working <+: working := by
  simp only [start]
  split
  · exact List.nil_prefix
  · exact List.prefix_rfl

theorem stops_eq (h : path.parts ≠ []) :
    path.stops working = Location.trail (path.start working) path.parent.parts := by
  rw [stops, ← List.dropLast_concat_getLast h, Location.passed_concat]
  rfl

theorem mem_of_prefix_place {location other : Location}
    (h : location ∈ path.stops working ∨ location = path.place working)
    (hbegins : other <+: location) :
    (other ∈ path.stops working ∨ other = path.place working) ∨ other <+: working := by
  have htrail : location ∈ Location.trail (path.start working) path.parts := by
    simpa [Location.trail, stops, place] using h
  rcases Location.mem_trail_of_prefix htrail hbegins with hm | hstart
  · exact .inl (by simpa [Location.trail, stops, place] using hm)
  · exact .inr (hstart.trans (start_begins working path))

/-- A file can have the path, if nothing is in its way. -/
structure IsFit (working : Location) (path : Path) : Prop where
  short : path.byteSize < FileTree.pathLimit
  parent_short : path.parent.byteSize < FileTree.pathLimit
  names : areNames path.parts
  apart : path.place working ∉ path.stops working

end Path

namespace FileTree

variable {tree tree' : FileTree} {path : Path} {location : Location} {bytes : ByteArray}

theorem isDirectory_start (tree : FileTree) (path : Path) :
    tree.isDirectory (path.start tree.working) = true :=
  isDirectory_iff.mpr (tree.at?_of_isAbove
    (List.isPrefixOf_iff_prefix.mpr (path.start_begins tree.working)))

/-- No file is on the way, and no directory in the place. -/
structure IsOpen (tree : FileTree) (path : Path) : Prop where
  stops : ∀ stop ∈ path.stops tree.working, ∀ bytes, tree.at? stop ≠ some (.file bytes)
  place : tree.at? (path.place tree.working) ≠ some .directory

theorem IsOpen.parts_ne_nil (h : tree.IsOpen path) : path.parts ≠ [] := by
  intro hnil
  refine h.place (isDirectory_iff.mp ?_)
  simpa [Path.place, hnil, Location.through] using tree.isDirectory_start path

theorem locate_of_short (h : path.byteSize < pathLimit) (tree : FileTree) :
    tree.locate path = tree.follow (path.start tree.working) path.parts := by
  simp [locate, Nat.not_le.mpr h]

/-- A path leads to its place if all of the way is directories. -/
theorem locate_eq (h : path.IsFit tree.working) : tree.locate path =
    if (path.stops tree.working).all tree.isDirectory then .found (path.place tree.working)
    else .absent := by
  rw [locate_of_short h.short]
  split
  · next hall => exact follow_eq_found.mpr ⟨rfl, List.all_eq_true.mp hall, h.names⟩
  · next hsome =>
    cases hfollow : tree.follow (path.start tree.working) path.parts with
    | tooLong => exact absurd hfollow (follow_ne_tooLong h.names)
    | absent => rfl
    | found location =>
      exact absurd (List.all_eq_true.mpr (follow_eq_found.mp hfollow).2.1) hsome

theorem locate_of_stops (h : path.IsFit tree.working)
    (hstops : ∀ stop ∈ path.stops tree.working, tree.isDirectory stop = true) :
    tree.locate path = .found (path.place tree.working) := by
  rw [locate_eq h, if_pos (List.all_eq_true.mpr hstops)]

/-- A path that leads somewhere leads to its place, on a way of directories. -/
theorem of_locate_eq_found (h : tree.locate path = .found location) :
    path.byteSize < pathLimit ∧ Path.areNames path.parts ∧
      location = path.place tree.working ∧
      ∀ stop ∈ path.stops tree.working, tree.isDirectory stop = true := by
  simp only [locate] at h
  split at h
  · simp at h
  next hshort =>
  obtain ⟨rfl, hstops, hnames⟩ := follow_eq_found.mp h
  exact ⟨Nat.not_le.mp hshort, hnames, rfl, hstops⟩

/-- The directories on the way to a fit path are made one after the other. -/
theorem makeDirectories_of_short (h : path.parent.byteSize < pathLimit) (tree : FileTree) :
    tree.makeDirectories path.parent =
      tree.makeAll (path.start tree.working) path.parent.parts.reverse := by
  rw [makeDirectories, if_neg (Nat.not_le.mpr h)]
  rfl

theorem isThere?_ne_none (h : path.IsFit tree.working) : tree.isThere? path ≠ none := by
  rw [isThere?, locate_eq h]
  by_cases hall : (path.stops tree.working).all tree.isDirectory = true <;> simp [hall]

/-- Nothing is at a path if one of the locations that it comes by is missing. -/
theorem isThere?_of_missing (hfit : path.IsFit tree.working)
    (hmem : location ∈ path.stops tree.working ∨ location = path.place tree.working)
    (hnone : tree.at? location = none) : tree.isThere? path = some false := by
  rw [FileTree.isThere?, locate_eq hfit]
  by_cases hall : (path.stops tree.working).all tree.isDirectory = true
  · have hplace : tree.at? (path.place tree.working) = none := by
      rcases hmem with hm | rfl
      · have hd := isDirectory_iff.mp (List.all_eq_true.mp hall location hm)
        simp [hd] at hnone
      · exact hnone
    simp [hall, hplace]
  · simp [hall]

/-- What is there reads, where a file can be put in place. -/
theorem read?_ne_none (hfit : path.IsFit tree.working) (hopen : tree.IsOpen path)
    (hthere : tree.isThere? path = some true) : tree.read? path ≠ none := by
  simp only [FileTree.isThere?, FileTree.read?, entry?, locate_eq hfit] at hthere ⊢
  by_cases hall : (path.stops tree.working).all tree.isDirectory = true
  · simp only [hall, ↓reduceIte] at hthere ⊢
    cases hplace : tree.at? (path.place tree.working) with
    | none => simp [hplace] at hthere
    | some entry =>
      cases entry with
      | file bytes => simp
      | directory => exact absurd hplace hopen.place
  · simp [hall] at hthere

/-- The medium takes all of the bytes in the place of the path. -/
def Takes (tree : FileTree) (path : Path) (bytes : ByteArray) : Prop :=
  tree.breaks? (path.place tree.working) bytes = none

theorem Takes.congr (h : tree.Takes path bytes) (hmedium : tree'.toMedium = tree.toMedium) :
    tree'.Takes path bytes := by
  rwa [Takes, hmedium]

theorem Placed.location_eq (h : Placed path bytes location tree tree') :
    location = path.place tree.working := by
  obtain ⟨-, -, rfl, -⟩ := of_locate_eq_found h.leads
  rw [h.grows.medium_eq]

/-- Nothing was in the way of a file that is in its place. -/
theorem Placed.isOpen (h : Placed path bytes location tree tree') : tree.IsOpen path := by
  obtain ⟨-, -, rfl, hstops⟩ := of_locate_eq_found h.leads
  have hfile := h.at_eq
  have hothers := h.others
  rw [h.grows.medium_eq] at hstops hfile hothers
  refine ⟨fun stop hm content hstop => ?_, fun hplace => ?_⟩
  · have hd := isDirectory_iff.mp (hstops stop hm)
    have hne : stop ≠ path.place tree.working := by
      rintro rfl
      simp [hfile] at hd
    simp [hothers stop _ hne hstop] at hd
  · have hd := isDirectory_iff.mp (h.grows.directories _ (isDirectory_iff.mpr hplace))
    simp [hfile] at hd

theorem Placed.isFit (h : Placed path bytes location tree tree')
    (hparent : path.parent.byteSize < pathLimit) : path.IsFit tree.working := by
  obtain ⟨hshort, hnames, rfl, hstops⟩ := of_locate_eq_found h.leads
  have hfile := h.at_eq
  rw [h.grows.medium_eq] at hstops hfile
  refine ⟨hshort, hparent, hnames, fun hm => ?_⟩
  have hd := isDirectory_iff.mp (hstops _ hm)
  simp [hfile] at hd

/-- What putting a file in place asks for, and what it comes to. -/
structure IsPut (path : Path) (bytes : ByteArray) (tree tree' : FileTree) : Prop where
  fit : path.IsFit tree.working
  isOpen : tree.IsOpen path
  taken : tree.Takes path bytes
  medium_eq : tree'.toMedium = tree.toMedium
  at_eq : ∀ other, tree'.at? other =
    if other = path.place tree.working then some (.file bytes)
    else if other ∈ path.stops tree.working then some .directory else tree.at? other

theorem isPut_of_place? (h : tree.place? path bytes = some tree') :
    IsPut path bytes tree tree' := by
  obtain ⟨made, hmade, hwrite⟩ := place?_eq_some.mp h
  obtain ⟨location, hlocate, hd, htaken, rfl⟩ := write?_eq_some.mp hwrite
  have hplaced := placed_of_set hmade hlocate hd bytes
  obtain rfl := hplaced.location_eq
  obtain ⟨-, -, -, hstops⟩ := of_locate_eq_found hlocate
  have hmedium : made.toMedium = tree.toMedium := hplaced.grows.medium_eq
  rw [hmedium] at htaken hstops
  simp only [makeDirectories] at hmade
  split at hmade
  · simp at hmade
  next hparent =>
  have hall := at?_makeAll tree (path.start tree.working) path.parent.parts.reverse
  rw [show path.parent.start tree.working = path.start tree.working from rfl] at hmade
  rw [hmade, List.reverse_reverse, ← Path.stops_eq hplaced.isOpen.parts_ne_nil] at hall
  refine ⟨hplaced.isFit (Nat.not_le.mp hparent), hplaced.isOpen, htaken, hmedium,
    fun other => ?_⟩
  rw [at?_set (isAbove_of_not_isDirectory hd)]
  by_cases hplace : other = path.place tree.working
  · simp [hplace]
  rw [beq_false_of_ne hplace, if_neg (by simp), if_neg hplace]
  split
  · next hm => exact isDirectory_iff.mp (hstops other hm)
  · next hm => exact (hall other).resolve_right fun hmore => hm hmore.2.2

/-- With nothing in the way the directories are made, and the path leads to a place where
there is none. -/
theorem exists_made (hfit : path.IsFit tree.working) (hopen : tree.IsOpen path) :
    ∃ made, tree.makeDirectories path.parent = (made, true) ∧ made.toMedium = tree.toMedium ∧
      made.locate path = .found (path.place tree.working) ∧
      made.isDirectory (path.place tree.working) = false := by
  have hstops : path.stops tree.working = _ := Path.stops_eq hopen.parts_ne_nil
  have hparent : Path.areNames path.parent.parts :=
    fun part hm => hfit.names part ((List.dropLast_sublist _).subset hm)
  have hmake : (tree.makeAll (path.start tree.working) path.parent.parts.reverse).2 = true := by
    refine makeAll_of_open (tree.isDirectory_start path) (by rwa [List.reverse_reverse]) ?_
    rw [List.reverse_reverse, ← hstops]
    exact hopen.stops
  have hdirectories := (isDirectory_makeAll (tree.isDirectory_start path) hmake).2
  have hextends := extends_makeAll tree (path.start tree.working) path.parent.parts.reverse
  have hall := at?_makeAll tree (path.start tree.working) path.parent.parts.reverse
    (path.place tree.working)
  rcases hrun : tree.makeAll (path.start tree.working) path.parent.parts.reverse with ⟨made, done⟩
  rw [hrun] at hmake hdirectories hextends hall
  rw [List.reverse_reverse, ← hstops] at hdirectories hall
  obtain rfl : done = true := hmake
  have hmedium : made.toMedium = tree.toMedium := hextends.medium_eq
  have hlocate : made.locate path = .found (path.place tree.working) := by
    rw [← hmedium]
    exact locate_of_stops (hmedium ▸ hfit) (hmedium ▸ hdirectories)
  have hplace : made.isDirectory (path.place tree.working) = false := by
    refine Bool.eq_false_iff.mpr fun hd => ?_
    rcases hall with heq | ⟨-, -, hm⟩
    · exact hopen.place (heq ▸ isDirectory_iff.mp hd)
    · exact hfit.apart hm
  have hmade : tree.makeDirectories path.parent = (made, true) := by
    rw [makeDirectories_of_short hfit.parent_short, hrun]
  exact ⟨made, hmade, hmedium, hlocate, hplace⟩

theorem exists_place? (hfit : path.IsFit tree.working) (hopen : tree.IsOpen path)
    (htaken : tree.Takes path bytes) : ∃ tree', tree.place? path bytes = some tree' := by
  obtain ⟨made, hmade, hmedium, hlocate, hplace⟩ := exists_made hfit hopen
  rw [Takes, ← hmedium] at htaken
  rw [← hmedium] at hlocate hplace
  exact ⟨_, place?_eq_some.mpr
    ⟨made, hmade, write?_eq_some.mpr ⟨_, hlocate, hplace, htaken, rfl⟩⟩⟩

/-- A file is put in place just where the path is fit, nothing is in its way and the
medium takes all of it. -/
theorem exists_place?_iff : (∃ tree', tree.place? path bytes = some tree') ↔
    path.IsFit tree.working ∧ tree.IsOpen path ∧ tree.Takes path bytes := by
  constructor
  · rintro ⟨tree', h⟩
    exact ⟨(isPut_of_place? h).fit, (isPut_of_place? h).isOpen, (isPut_of_place? h).taken⟩
  · exact fun ⟨hfit, hopen, htaken⟩ => exists_place? hfit hopen htaken

/-- The way to a file that was put in place is made of directories. -/
structure Holds (tree : FileTree) (path : Path) : Prop where
  stops : ∀ stop ∈ path.stops tree.working, tree.at? stop = some .directory
  place : ∃ bytes, tree.at? (path.place tree.working) = some (.file bytes)

theorem holds_of_place? (h : tree.place? path bytes = some tree') : tree'.Holds path := by
  have hput := isPut_of_place? h
  refine ⟨fun stop hm => ?_, bytes, by simp [hput.medium_eq, hput.at_eq]⟩
  rw [hput.medium_eq] at hm
  have hne : stop ≠ path.place tree.working := fun he => hput.fit.apart (he ▸ hm)
  simp [hput.at_eq, hne, hm]

/-- A file that is put in place once more changes nothing. -/
theorem place?_again (h : tree.place? path bytes = some tree') :
    tree'.place? path bytes = some tree' := by
  have hput := isPut_of_place? h
  have hfit : path.IsFit tree'.working := hput.medium_eq ▸ hput.fit
  have hplace : tree'.at? (path.place tree'.working) = some (.file bytes) := by
    simp [hput.medium_eq, hput.at_eq]
  have hstops : ∀ stop ∈ path.stops tree'.working, tree'.isDirectory stop = true :=
    fun stop hm => isDirectory_iff.mpr ((holds_of_place? h).stops stop hm)
  have hlocate : tree'.locate path = .found (path.place tree'.working) :=
    locate_of_stops hfit hstops
  have hmade : tree'.makeDirectories path.parent = (tree', true) := by
    rw [makeDirectories_of_short hfit.parent_short]
    rw [Path.stops_eq hput.isOpen.parts_ne_nil] at hstops
    exact makeAll_of_isDirectory
      (fun part hm => hfit.names part ((List.dropLast_sublist _).subset hm)) hstops
  have hset : tree'.set (path.place tree'.working) (.file bytes) = tree' := by
    have habove := isAbove_eq_false hplace (by simp)
    have hlookup : tree'.entries.lookup (path.place tree'.working) = some (.file bytes) := by
      simpa [at?, habove] using hplace
    rw [set, Keyed.put_of_lookup hlookup]
  have hwrite : tree'.write? path bytes = some tree' := write?_eq_some.mpr
    ⟨_, hlocate, by simp [isDirectory, hplace], hput.taken.congr hput.medium_eq, hset.symm⟩
  exact place?_eq_some.mpr ⟨tree', hmade, hwrite⟩

/-- What is left of a file that could not be put in place. -/
theorem at?_makeDirectories (tree : FileTree) (path : Path) (other : Location) :
    (tree.makeDirectories path.parent).1.at? other = tree.at? other ∨ tree.at? other = none ∧
      (tree.makeDirectories path.parent).1.at? other = some .directory ∧
      other ∈ path.stops tree.working := by
  simp only [makeDirectories]
  split
  · exact .inl rfl
  have hall := at?_makeAll tree (path.start tree.working) path.parent.parts.reverse other
  rw [List.reverse_reverse] at hall
  by_cases hparts : path.parts = []
  · simp [Path.parent, hparts, makeAll]
  · rwa [Path.stops_eq hparts]

end FileTree

end PreviewShots
