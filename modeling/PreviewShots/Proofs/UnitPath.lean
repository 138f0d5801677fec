import PreviewShots.Proofs.FileTree
import PreviewShots.Proofs.Name
import PreviewShots.Proofs.Plan

/-!
# Paths of units

A unit is named twice, by a qualified name and by a path. Where every segment of a package is
a directory of its own, two units with one path have one name, so that it is enough to keep
the names apart. Paths that differ lead to different places, unless a name among them stands
for bytes that make up another one.
-/

namespace PreviewShots

open Text

namespace Path

theorem takeWhile_slash {part : Text} (h : CodePoint.char '/' ∉ part) :
    part.takeWhile (· = CodePoint.char '/') = [] := by
  cases part with
  | nil => rfl
  | cons c cs =>
    have hc : c ≠ CodePoint.char '/' := fun he => h (he ▸ List.mem_cons_self)
    simp [hc]

theorem parse_part {part : Text} (hpart : isPart part = true) (h : CodePoint.char '/' ∉ part) :
    parse part = ⟨[], [part]⟩ := by
  simp only [parse, rootOf, takeWhile_slash h, splitOn_of_not_mem h]
  simp [hpart]
  rfl

theorem join_parts (base : Path) (parts : List Text) :
    base.join ⟨[], parts⟩ = ⟨base.root, base.parts ++ parts⟩ := by
  simp [join, isAbsolute]

theorem foldl_join_parts (base : Path) (parts : List Text) :
    (parts.map fun part => (⟨[], [part]⟩ : Path)).foldl join base =
      ⟨base.root, base.parts ++ parts⟩ := by
  induction parts generalizing base with
  | nil => simp
  | cons part parts ih => simp [join_parts, ih]

/-- The parts of a path as they are read from a text. -/
def IsRead (path : Path) : Prop :=
  ∀ part ∈ path.parts, CodePoint.char '/' ∉ part

theorem isRead_parse (text : Text) : (parse text).IsRead :=
  fun _ h => sep_not_mem_of_mem_splitOn (List.mem_filter.mp h).1

/-- Paths of one root are told apart by their texts. -/
theorem parts_of_toText {root : Text} {parts others : List Text}
    (hparts : ∀ part ∈ parts, CodePoint.char '/' ∉ part)
    (hothers : ∀ part ∈ others, CodePoint.char '/' ∉ part) (hne : parts ≠ []) (hne' : others ≠ [])
    (h : toText ⟨root, parts⟩ = toText ⟨root, others⟩) : parts = others := by
  simp only [toText, List.isEmpty_eq_false_iff.mpr hne, List.isEmpty_eq_false_iff.mpr hne',
    Bool.and_false, Bool.false_eq_true, ↓reduceIte, List.append_cancel_left_eq] at h
  rw [← splitOn_joinWith hne hparts, ← splitOn_joinWith hne' hothers]
  exact congrArg (splitOn _) h

end Path

/-- None, or segments between dots that are directories of their own. -/
def Label.IsPackage (package : Label) : Prop :=
  package.isTruthy = true → ∃ text, package = .string text ∧
    ∀ segment ∈ splitOn (.char '.') text, segment ≠ [] ∧ CodePoint.char '/' ∉ segment

namespace UnitKey

variable {key other : UnitKey} {directory : Path}

structure IsPlain (key : UnitKey) : Prop where
  package : key.package.IsPackage
  file : CodePoint.char '/' ∉ key.file

def segments (key : UnitKey) : List Text :=
  let package := (packageName? key.package).getD []
  if package.isEmpty then [] else splitOn (.char '.') package

/-- The names that lead from the directory of the outputs to the unit. -/
def names (key : UnitKey) : List Text :=
  key.segments ++ [key.file ++ "." ++ "kt"]

theorem names_ne_nil (key : UnitKey) : key.names ≠ [] := by
  simp [names]

theorem segments_of_not_truthy (h : key.package.isTruthy = false) : key.segments = [] := by
  simp [segments, packageName?, h]

theorem segments_of_truthy {text : Text} (hpackage : key.package = .string text)
    (h : key.package.isTruthy = true) : key.segments = splitOn (.char '.') text := by
  have hne : text.isEmpty = false := by simpa [hpackage, Json.isTruthy] using h
  simp only [segments, packageName?, h, ↓reduceIte]
  simp [hpackage, Label.text?, hne]

theorem IsPlain.mem_segments (hk : key.IsPlain) {segment : Text} (h : segment ∈ key.segments) :
    segment ≠ [] ∧ CodePoint.char '/' ∉ segment ∧ CodePoint.char '.' ∉ segment := by
  cases ht : key.package.isTruthy with
  | false => simp [segments_of_not_truthy ht] at h
  | true =>
    obtain ⟨text, htext, hsegments⟩ := hk.package ht
    rw [segments_of_truthy htext ht] at h
    exact ⟨(hsegments segment h).1, (hsegments segment h).2, sep_not_mem_of_mem_splitOn h⟩

/-- A name on the way to a unit is a part of a path, and does not lead back. -/
theorem IsPlain.mem_names (hk : key.IsPlain) {name : Text} (h : name ∈ key.names) :
    Path.isPart name = true ∧ CodePoint.char '/' ∉ name ∧ name ≠ ".." := by
  rcases List.mem_append.mp h with h | h
  · obtain ⟨hne, hslash, hdot⟩ := hk.mem_segments h
    refine ⟨?_, hslash, ?_⟩
    · have : name ≠ ofString "." := fun he => hdot (he ▸ by decide)
      simp [Path.isPart, hne, this]
    · exact fun he => hdot (he ▸ by decide)
  · obtain rfl := List.mem_singleton.mp h
    have hlast : (key.file ++ "." ++ "kt").getLast? = some (.char 't') :=
      List.getLast?_append.trans (by rfl)
    refine ⟨?_, ?_, fun he => ?_⟩
    · have hdot : key.file ++ ofString "." ++ ofString "kt" ≠ ofString "." := by
        intro he
        rw [he] at hlast
        exact absurd hlast (by decide)
      have hne : key.file ++ ofString "." ++ ofString "kt" ≠ [] := by simp [ofString, ofChars]
      rw [Path.isPart, List.isEmpty_eq_false_iff.mpr hne]
      simpa only [Bool.not_false, Bool.true_and, decide_eq_true_eq] using hdot
    · simp only [List.mem_append, not_or]
      exact ⟨⟨hk.file, by decide⟩, by decide⟩
    · rw [he] at hlast
      exact absurd hlast (by decide)

theorem unitPath_eq (hk : key.IsPlain) (directory : Path) :
    Plan.unitPath directory key = ⟨directory.root, directory.parts ++ key.names⟩ := by
  have hfile := hk.mem_names (List.mem_append_right key.segments (List.mem_singleton.mpr rfl))
  have hparse : Path.parse (key.file ++ "." ++ "kt") = ⟨[], [key.file ++ "." ++ "kt"]⟩ :=
    Path.parse_part hfile.1 hfile.2.1
  have hdirectory : (Outputs.ofDirectory directory).packageDirectory
      ((packageName? key.package).getD []) = ⟨directory.root, directory.parts ++ key.segments⟩ := by
    simp only [Outputs.packageDirectory, segments, Outputs.ofDirectory]
    split
    · simp
    next hsome =>
    have hmap : (splitOn (.char '.') ((packageName? key.package).getD [])).map Path.parse =
        (splitOn (.char '.') ((packageName? key.package).getD [])).map fun part => ⟨[], [part]⟩ := by
      refine List.map_congr_left fun segment hs => ?_
      have hm : segment ∈ key.names := List.mem_append_left _ (by simpa [segments, hsome] using hs)
      exact Path.parse_part (hk.mem_names hm).1 (hk.mem_names hm).2.1
    rw [hmap, Path.foldl_join_parts]
  rw [Plan.unitPath, Outputs.pathFor, hdirectory, hparse, Path.join_parts]
  simp [names]

theorem qualifiedName_of_names (hk : key.IsPlain) (ho : other.IsPlain)
    (h : key.names = other.names) : key.qualifiedName = other.qualifiedName := by
  obtain ⟨hsegments, hfile⟩ := List.append_inj' h rfl
  replace hfile : key.file = other.file := by simpa using hfile
  simp only [qualifiedName, qualify, hfile]
  -- no text is split into nothing, so a missing package is told from any other
  cases ht : key.package.isTruthy with
  | false =>
    cases ht' : other.package.isTruthy with
    | false => rfl
    | true =>
      obtain ⟨text, htext, -⟩ := ho.package ht'
      rw [segments_of_not_truthy ht, segments_of_truthy htext ht'] at hsegments
      exact absurd hsegments.symm (splitOn_ne_nil _ _)
  | true =>
    obtain ⟨text, htext, -⟩ := hk.package ht
    cases ht' : other.package.isTruthy with
    | false =>
      rw [segments_of_truthy htext ht, segments_of_not_truthy ht'] at hsegments
      exact absurd hsegments (splitOn_ne_nil _ _)
    | true =>
      obtain ⟨text', htext', -⟩ := ho.package ht'
      rw [segments_of_truthy htext ht, segments_of_truthy htext' ht'] at hsegments
      rw [htext, htext', ← joinWith_splitOn (.char '.') text, hsegments, joinWith_splitOn]

/-- Units with one path have one name. -/
theorem qualifiedName_of_toText (hd : directory.IsRead) (hk : key.IsPlain) (ho : other.IsPlain)
    (h : (Plan.unitPath directory key).toText = (Plan.unitPath directory other).toText) :
    key.qualifiedName = other.qualifiedName := by
  rw [unitPath_eq hk, unitPath_eq ho] at h
  have hslash {k : UnitKey} (hk : k.IsPlain) :
      ∀ part ∈ directory.parts ++ k.names, CodePoint.char '/' ∉ part := by
    intro part hm
    rcases List.mem_append.mp hm with hm | hm
    · exact hd part hm
    · exact (hk.mem_names hm).2.1
  have hparts := Path.parts_of_toText (hslash hk) (hslash ho) (by simp [names_ne_nil])
    (by simp [names_ne_nil]) h
  exact qualifiedName_of_names hk ho (List.append_cancel_left hparts)

end UnitKey

-- ---------------------------------------------------------------------------
-- Places
-- ---------------------------------------------------------------------------

namespace FileTree

variable {tree : FileTree} {start location : Location}

theorem follow_append {parts more : List Text}
    (h : tree.follow start (parts ++ more) = .found location) :
    ∃ middle, tree.follow start parts = .found middle ∧
      tree.follow middle more = .found location := by
  induction parts generalizing start with
  | nil => exact ⟨start, rfl, h⟩
  | cons part parts ih =>
    simp only [List.cons_append, follow] at h ⊢
    split at h
    · simp at h
    next hd =>
    rw [if_neg hd]
    split at h
    · next hup =>
      rw [if_pos hup]
      exact ih h
    next hdown =>
    rw [if_neg hdown]
    split at h
    · simp at h
    next hfits =>
    rw [if_neg hfits]
    exact ih h

/-- Names that do not lead back lead straight on. -/
theorem follow_names {names : List Text} (hnames : ∀ name ∈ names, name ≠ "..")
    (h : tree.follow start names = .found location) :
    location = start ++ names.map (·.fileName) := by
  induction names generalizing start with
  | nil => simpa [follow, eq_comm] using h
  | cons name names ih =>
    obtain ⟨hname, hrest⟩ := List.forall_mem_cons.mp hnames
    simp only [follow] at h
    split at h
    · simp at h
    split at h
    · simp at h
    rw [ih hrest h]
    simp

end FileTree

namespace UnitKey

variable {key other : UnitKey} {directory : Path} {tree : FileTree}

/-- No name on the way to the unit stands for bytes. -/
def IsEncodable (key : UnitKey) : Prop :=
  ∀ name ∈ key.names, name.isEncodable = true

theorem IsEncodable.map_fileName (h : key.IsEncodable) :
    key.names.map (·.fileName) = key.names := by
  have hid : ∀ name ∈ key.names, name.fileName = id name := fun name hm => if_pos (h name hm)
  rw [List.map_congr_left hid, List.map_id]

/-- A unit is found within the directory of the outputs, by its names. -/
theorem location_eq (hk : key.IsPlain) (he : key.IsEncodable) {location : Location}
    (h : tree.locate (Plan.unitPath directory key) = .found location) :
    ∃ start, tree.follow (directory.start tree.working) directory.parts = .found start ∧
      location = start ++ key.names := by
  have hback (name : Text) (hm : name ∈ key.names) : name ≠ ".." := (hk.mem_names hm).2.2
  rw [unitPath_eq hk] at h
  simp only [FileTree.locate] at h
  split at h
  · simp at h
  obtain ⟨start, hstart, hlast⟩ := FileTree.follow_append h
  refine ⟨start, hstart, ?_⟩
  rw [FileTree.follow_names hback hlast, he.map_fileName]

/-- Units of different names come to different places. -/
theorem not_meet (hk : key.IsPlain) (ho : other.IsPlain) (hke : key.IsEncodable)
    (hoe : other.IsEncodable) (hne : key.qualifiedName ≠ other.qualifiedName) :
    ¬ tree.Meet (Plan.unitPath directory key) (Plan.unitPath directory other) := by
  rintro ⟨location, hkey, hother⟩
  obtain ⟨start, hstart, rfl⟩ := location_eq hk hke hkey
  obtain ⟨start', hstart', hnames⟩ := location_eq ho hoe hother
  rw [hstart, FileTree.Lead.found.injEq] at hstart'
  subst hstart'
  exact hne (qualifiedName_of_names hk ho (List.append_cancel_left hnames))

end UnitKey

end PreviewShots
