import PreviewShots.Keyed
import PreviewShots.Path

/-!
# File trees

The files and directories from the root on. A location is a list of names from there;
a path leads to one from the root or from the working directory, a double dot back to
the directory above. Two names are one if they are the same bytes. A name has a greatest
length, and so has a path. A file is opened, which empties it, and then filled; how much
of that the medium takes is open.
-/

namespace PreviewShots

inductive Entry where
  | file (bytes : ByteArray)
  | directory

abbrev Location := List Text

/-- The location of the directory that holds this one; the root holds itself. -/
def Location.up (location : Location) : Location :=
  location.dropLast

/-- What stays as it is whatever is done to the files. -/
structure Medium where
  /-- Where relative paths start. -/
  working : Location
  /-- After how many of its bytes the writing of a file breaks off, if it does. -/
  breaks? : Location → ByteArray → Option Nat

/-- The working directory itself or one above it. These are directories. -/
def Medium.isAbove (medium : Medium) (location : Location) : Bool :=
  location.isPrefixOf medium.working

structure FileTree extends Medium where
  entries : List (Location × Entry)

/-- Where a path starts: at the root or in the working directory. -/
def Path.start (working : Location) (path : Path) : Location :=
  if path.isAbsolute then [] else working

namespace FileTree

def home : Location := [Text.ofString "home", Text.ofString "work"]

/-- A tree with the entries beneath the working directory, on a medium that takes all. -/
def ofEntries (entries : List (Location × Entry)) : FileTree where
  working := home
  breaks? _ _ := none
  entries := entries.map fun (location, entry) => (home ++ location, entry)

def empty : FileTree := ofEntries []

def at? (tree : FileTree) (location : Location) : Option Entry :=
  if tree.isAbove location then some .directory else tree.entries.lookup location

def isDirectory (tree : FileTree) (location : Location) : Bool :=
  match tree.at? location with
  | some .directory => true
  | _ => false

/-- The tree with the entry, in the place of the one that was there. -/
def set (tree : FileTree) (location : Location) (entry : Entry) : FileTree :=
  { tree with entries := Keyed.put location entry tree.entries }

def erase (tree : FileTree) (location : Location) : FileTree :=
  { tree with entries := Keyed.erase location tree.entries }

-- ---------------------------------------------------------------------------
-- Paths
-- ---------------------------------------------------------------------------

/-- The greatest length of a name, in bytes. -/
def nameLimit : Nat := 255

/-- The length at which a path is too long, in bytes. -/
def pathLimit : Nat := 4096

/-- Where a path leads. -/
inductive Lead where
  | found (location : Location)
  /-- A part that has to be a directory is none. -/
  | absent
  | tooLong
  deriving DecidableEq, Repr

/-- Where the parts lead from a location. All but the last of them have to be
directories; a name is looked at only once the directory is there. -/
def follow (tree : FileTree) : Location → List Text → Lead
  | start, [] => .found start
  | start, part :: parts =>
    if !tree.isDirectory start then .absent
    else if part = ".." then tree.follow start.up parts
    else if nameLimit < part.byteSize then .tooLong
    else tree.follow (start ++ [part.fileName]) parts

def locate (tree : FileTree) (path : Path) : Lead :=
  if pathLimit ≤ path.byteSize then .tooLong
  else tree.follow (path.start tree.working) path.parts

/-- Whether something is at the path; `none` if the path is too long to tell. -/
def isThere? (tree : FileTree) (path : Path) : Option Bool :=
  match tree.locate path with
  | .found location => some (tree.at? location).isSome
  | .absent => some false
  | .tooLong => none

def entry? (tree : FileTree) (path : Path) : Option Entry :=
  match tree.locate path with
  | .found location => tree.at? location
  | _ => none

def read? (tree : FileTree) (path : Path) : Option ByteArray :=
  match tree.entry? path with
  | some (.file bytes) => some bytes
  | _ => none

/-- Opening empties a file or makes one in a directory that is there. -/
def opened? (tree : FileTree) (path : Path) : Option FileTree :=
  match tree.locate path with
  | .found location =>
    if tree.isDirectory location then none else some (tree.set location (.file .empty))
  | _ => none

/-- The file gets the bytes, as far as the medium takes them. -/
def fill (tree : FileTree) (path : Path) (bytes : ByteArray) : FileTree × Bool :=
  match tree.locate path with
  | .found location =>
    if tree.isDirectory location then (tree, false)
    else match tree.breaks? location bytes with
      | none => (tree.set location (.file bytes), true)
      | some size => (tree.set location (.file (bytes.extract 0 size)), false)
  | _ => (tree, false)

def remove? (tree : FileTree) (path : Path) : Option FileTree :=
  match tree.locate path with
  | .found location => match tree.at? location with
    | some (.file _) => some (tree.erase location)
    | _ => none
  | _ => none

/-- One directory whose parent is there; one that is there already will do. -/
def makeOne (tree : FileTree) (location : Location) : FileTree × Bool :=
  match tree.at? location with
  | some .directory => (tree, true)
  | some (.file _) => (tree, false)
  | none => (tree.set location .directory, true)

/-- The directory that the parts name, last part first, and those above it that
are missing. What was made stays when a later one fails. -/
def makeAll (tree : FileTree) (start : Location) : List Text → FileTree × Bool
  | [] => (tree, true)
  | part :: above =>
    match tree.follow start (part :: above).reverse with
    | .found location => tree.makeOne location
    | .tooLong => (tree, false)
    | .absent =>
      match tree.makeAll start above with
      | (tree, false) => (tree, false)
      | (tree, true) =>
        match tree.follow start (part :: above).reverse with
        | .found location => tree.makeOne location
        | _ => (tree, false)

def makeDirectories (tree : FileTree) (path : Path) : FileTree × Bool :=
  if pathLimit ≤ path.byteSize then (tree, false)
  else tree.makeAll (path.start tree.working) path.parts.reverse

/-- The files beneath the working directory, each with its location from there. -/
def files (tree : FileTree) : List (Location × ByteArray) :=
  tree.entries.filterMap fun (location, entry) => match entry with
    | .file bytes =>
      if tree.working.isPrefixOf location then some (location.drop tree.working.length, bytes)
      else none
    | .directory => none

-- ---------------------------------------------------------------------------
-- Laws
-- ---------------------------------------------------------------------------

@[simp] theorem set_toMedium (tree : FileTree) (location : Location) (entry : Entry) :
    (tree.set location entry).toMedium = tree.toMedium := rfl

@[simp] theorem erase_toMedium (tree : FileTree) (location : Location) :
    (tree.erase location).toMedium = tree.toMedium := rfl

theorem at?_set {tree : FileTree} {location other : Location} {entry : Entry}
    (h : tree.isAbove location = false) :
    (tree.set location entry).at? other =
      if other == location then some entry else tree.at? other := by
  by_cases ho : tree.isAbove other
  · have hne : (other == location) = false := by
      simpa using fun heq : other = location => by simp [heq, h] at ho
    simp [at?, ho, hne]
  · simp only [at?, set_toMedium, ho]
    simp [set, Keyed.lookup_put]

theorem at?_erase {tree : FileTree} {location other : Location}
    (h : tree.isAbove location = false) :
    (tree.erase location).at? other = if other == location then none else tree.at? other := by
  by_cases ho : tree.isAbove other
  · have hne : (other == location) = false := by
      simpa using fun heq : other = location => by simp [heq, h] at ho
    simp [at?, ho, hne]
  · simp only [at?, erase_toMedium, ho]
    simp [erase, Keyed.lookup_erase]

end FileTree

end PreviewShots
