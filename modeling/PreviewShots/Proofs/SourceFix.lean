import PreviewShots.Proofs.Halt
import PreviewShots.Proofs.Rewording
import PreviewShots.Proofs.VisibilityFix

/-!
# Files as a fix leaves them

A fix decodes each file that the report leads to, makes its functions internal and writes it
where it has changed. What has become of a file is told by the names it was visited with: it
is there as these names leave it (`outcome_fixFiles`), be the fix at its end or stopped at a
file that is no text. To visit it with some of the names first makes no difference. Only of a
file that the medium does not take something else may be left, and there the fix stops too.
-/

open PreviewShots.Task

namespace PreviewShots

open Text

namespace VisibilityFix

variable {name text : Text} {names more : List Text} {bytes : ByteArray}

-- ---------------------------------------------------------------------------
-- Texts
-- ---------------------------------------------------------------------------

theorem substitute_fst_of_count (h : (substitute name 0 0 text).2 = 0) :
    (substitute name 0 0 text).1 = text := by
  induction text with
  | nil => rfl
  | cons c cs ih =>
    have hnot : ¬ Declares name (c :: cs) := fun hdeclares =>
      substitute_count_eq_zero.mp h (occurs_cons.mpr (.inl hdeclares))
    rw [substitute_cons_of_not hnot] at h ⊢
    exact congrArg _ (ih h)

/-- Where no name occurs, nothing changes. -/
theorem fixText_fst_of_count (h : (fixText names text).2 = 0) : (fixText names text).1 = text := by
  induction names generalizing text with
  | nil => rfl
  | cons name names ih =>
    rw [fixText_cons] at h ⊢
    obtain ⟨hlater, hnone⟩ := Nat.add_eq_zero_iff.mp h
    have hsame := substitute_fst_of_count (substitute_count_eq_zero.mpr (by simpa using hnone))
    rw [hsame] at hlater ⊢
    exact ih hlater

theorem fixText_append (names more : List Text) (text : Text) : fixText (names ++ more) text =
    ((fixText more (fixText names text).1).1,
      (fixText more (fixText names text).1).2 + (fixText names text).2) := by
  induction names generalizing text with
  | nil => rfl
  | cons name names ih =>
    rw [List.cons_append, fixText_cons, ih, fixText_cons]
    exact Prod.ext rfl (Nat.add_assoc _ _ _)

theorem fixText_congr (hnames : ∀ name ∈ names, IsSimple name)
    (hsame : ∀ name, name ∈ more ↔ name ∈ names) (text : Text) :
    fixText more text = fixText names text := by
  have hmore : ∀ name ∈ more, IsSimple name := fun name hm => hnames name ((hsame name).mp hm)
  have hfixed := (rewritten_fixText hmore text).mono_of_mem_iff fun name => (hsame name).symm
  have hperm : more.dedup.Perm names.dedup := by
    refine (List.perm_ext_iff_of_nodup (List.nodup_dedup _) (List.nodup_dedup _)).mpr ?_
    simpa only [List.mem_dedup] using hsame
  refine Prod.ext (hfixed.unique (rewritten_fixText hnames text)) ?_
  rw [count_fixText hnames, count_fixText hmore, hperm.countP_eq]

-- ---------------------------------------------------------------------------
-- The bytes of a file
-- ---------------------------------------------------------------------------

/-- The text of a file as it is read. -/
def readAs (content : String) : Text :=
  ofChars (unifyNewlines content.toList)

/-- The bytes of a file after a fix for the names: a text is written where a name occurs in it. -/
def fixedBytes (names : List Text) (bytes : ByteArray) : ByteArray :=
  match String.fromUTF8? bytes with
  | none => bytes
  | some content =>
    let (fixed, count) := fixText names (readAs content)
    if count = 0 then bytes else fixed.utf8?.getD .empty

variable {content : String}

theorem fromUTF8?_toUTF8 (content : String) : String.fromUTF8? content.toUTF8 = some content :=
  (dif_pos content.isValidUTF8).trans rfl

theorem isEncodable_readAs (content : String) : (readAs content).isEncodable = true :=
  isEncodable_ofChars _

theorem return_not_mem_readAs (content : String) : CodePoint.char '\r' ∉ readAs content := by
  simpa [readAs, ofChars] using return_not_mem_unifyNewlines content.toList

theorem fixedBytes_of_content (h : String.fromUTF8? bytes = some content) :
    fixedBytes names bytes =
      if (fixText names (readAs content)).2 = 0 then bytes
      else (fixText names (readAs content)).1.utf8?.getD .empty := by
  simp only [fixedBytes, h]

/-- What a fix has written is a text again, and reads as it was written. -/
theorem exists_content (names : List Text) (h : String.fromUTF8? bytes = some content) :
    ∃ content', String.fromUTF8? (fixedBytes names bytes) = some content' ∧
      readAs content' = (fixText names (readAs content)).1 := by
  rw [fixedBytes_of_content h]
  split
  · next hnone => exact ⟨content, h, (fixText_fst_of_count hnone).symm⟩
  · exact read_utf8 (isEncodable_fixText names (isEncodable_readAs content))
      (return_not_mem_fixText names (return_not_mem_readAs content))

theorem fixedBytes_of_none (h : String.fromUTF8? bytes = none) :
    fixedBytes names bytes = bytes := by
  simp only [fixedBytes, h]

theorem fixedBytes_nil (bytes : ByteArray) : fixedBytes [] bytes = bytes := by
  cases h : String.fromUTF8? bytes with
  | none => exact fixedBytes_of_none h
  | some content => exact fixedBytes_of_content h

theorem fixedBytes_append (names more : List Text) (bytes : ByteArray) :
    fixedBytes (names ++ more) bytes = fixedBytes more (fixedBytes names bytes) := by
  cases h : String.fromUTF8? bytes with
  | none => rw [fixedBytes_of_none h, fixedBytes_of_none h, fixedBytes_of_none h]
  | some content =>
    obtain ⟨content', hcontent', hread⟩ := exists_content names h
    rw [fixedBytes_of_content hcontent', fixedBytes_of_content h, fixText_append, hread]
    by_cases hmore : (fixText more (fixText names (readAs content)).1).2 = 0
    · rw [if_pos hmore, fixText_fst_of_count hmore, fixedBytes_of_content h, hmore, Nat.zero_add]
    · rw [if_neg hmore, if_neg fun hnone => hmore (Nat.add_eq_zero_iff.mp hnone).1]

theorem fixedBytes_congr (hnames : ∀ name ∈ names, IsSimple name)
    (hsame : ∀ name, name ∈ more ↔ name ∈ names) (bytes : ByteArray) :
    fixedBytes more bytes = fixedBytes names bytes := by
  simp only [fixedBytes, fixText_congr hnames hsame]

/-- Names that the file was visited with before make no difference. -/
theorem fixedBytes_fixedBytes (hnames : ∀ name ∈ names, IsSimple name) (hsub : more ⊆ names)
    (bytes : ByteArray) : fixedBytes names (fixedBytes more bytes) = fixedBytes names bytes := by
  rw [← fixedBytes_append]
  exact fixedBytes_congr hnames (fun name => by simpa using @hsub name) bytes

end VisibilityFix

-- ---------------------------------------------------------------------------
-- Trees
-- ---------------------------------------------------------------------------

namespace Entry

/-- The entry after a fix for the names. -/
def fixed (names : List Text) : Entry → Entry
  | .file bytes => .file (VisibilityFix.fixedBytes names bytes)
  | .directory => .directory

variable {names more : List Text}

theorem fixed_nil (entry : Entry) : entry.fixed [] = entry := by
  cases entry with
  | file bytes => exact congrArg file (VisibilityFix.fixedBytes_nil bytes)
  | directory => rfl

theorem fixed_append (entry : Entry) :
    entry.fixed (names ++ more) = (entry.fixed names).fixed more := by
  cases entry with
  | file bytes => exact congrArg file (VisibilityFix.fixedBytes_append names more bytes)
  | directory => rfl

theorem fixed_fixed (hnames : ∀ name ∈ names, VisibilityFix.IsSimple name) (hsub : more ⊆ names)
    (entry : Entry) : (entry.fixed more).fixed names = entry.fixed names := by
  cases entry with
  | file bytes => exact congrArg file (VisibilityFix.fixedBytes_fixedBytes hnames hsub bytes)
  | directory => rfl

end Entry

namespace FileTree

variable {tree tree' tree'' : FileTree} {names more : Location → List Text} {path : Path}

/-- Every entry is there as a fix for the names of its location leaves it. -/
structure Fixes (names : Location → List Text) (tree tree' : FileTree) : Prop where
  medium_eq : tree'.toMedium = tree.toMedium
  entries : ∀ location,
    tree'.at? location = (tree.at? location).map (Entry.fixed (names location))

theorem Fixes.refl (h : ∀ location, names location = []) (tree : FileTree) :
    Fixes names tree tree := by
  refine ⟨rfl, fun location => ?_⟩
  rw [h, funext Entry.fixed_nil]
  exact Option.map_id'.symm

theorem Fixes.trans (h : Fixes names tree tree') (h' : Fixes more tree' tree'') :
    Fixes (fun location => names location ++ more location) tree tree'' := by
  refine ⟨h'.medium_eq.trans h.medium_eq, fun location => ?_⟩
  rw [h'.entries, h.entries, Option.map_map]
  exact congrArg (Option.map · _) (funext fun entry => (Entry.fixed_append entry).symm)

theorem Fixes.isDirectory_eq (h : Fixes names tree tree') (location : Location) :
    tree'.isDirectory location = tree.isDirectory location := by
  simp only [isDirectory, h.entries location]
  cases tree.at? location with
  | none => rfl
  | some entry => cases entry <;> rfl

theorem Fixes.locate (h : Fixes names tree tree') (path : Path) :
    tree'.locate path = tree.locate path :=
  locate_congr h.medium_eq h.isDirectory_eq path

theorem Fixes.isThere? (h : Fixes names tree tree') (path : Path) :
    tree'.isThere? path = tree.isThere? path := by
  simp only [FileTree.isThere?, h.locate]
  cases tree.locate path with
  | found location => simp [h.entries location]
  | absent => rfl
  | tooLong => rfl

theorem Fixes.isReadable (h : Fixes names tree tree') (hreadable : tree.IsReadable path) :
    tree'.IsReadable path := by
  refine hreadable.imp ((h.isThere? path).trans ·) fun ⟨hthere, bytes, content, hbytes, hcontent⟩ =>
    ⟨(h.isThere? path).trans hthere, ?_⟩
  obtain ⟨location, hlocate, hfile⟩ := read?_eq_some.mp hbytes
  obtain ⟨content', hcontent', -⟩ := VisibilityFix.exists_content (names location) hcontent
  refine ⟨_, content', read?_eq_some.mpr ⟨location, (h.locate path).trans hlocate, ?_⟩, hcontent'⟩
  rw [h.entries location, hfile]
  rfl

theorem Fixes.isReadable_iff (h : Fixes names tree tree') :
    tree'.IsReadable path ↔ tree.IsReadable path := by
  refine ⟨fun hreadable => ?_, h.isReadable⟩
  refine hreadable.imp ((h.isThere? path).symm.trans ·) fun ⟨hthere, _, _, hbytes, hcontent⟩ =>
    ⟨(h.isThere? path).symm.trans hthere, ?_⟩
  obtain ⟨location, hlocate, hfile⟩ := read?_eq_some.mp hbytes
  rw [h.entries location] at hfile
  obtain ⟨entry, hentry, hfixed⟩ := Option.map_eq_some_iff.mp hfile
  cases entry with
  | directory => cases hfixed
  | file bytes =>
    cases hfixed
    cases hold : String.fromUTF8? bytes with
    | none => simp [VisibilityFix.fixedBytes_of_none hold, hold] at hcontent
    | some content =>
      exact ⟨bytes, content, read?_eq_some.mpr ⟨location, (h.locate path).symm.trans hlocate,
        hentry⟩, hold⟩

/-- One file is written as a fix leaves it. -/
theorem fixes_of_at? {location : Location} {bytes : ByteArray} {one : List Text}
    (hfile : tree.at? location = some (.file bytes)) (hmedium : tree'.toMedium = tree.toMedium)
    (h : ∀ other, tree'.at? other =
      if other = location then some (.file (VisibilityFix.fixedBytes one bytes))
      else tree.at? other) :
    Fixes (fun other => if other = location then one else []) tree tree' := by
  refine ⟨hmedium, fun other => ?_⟩
  rw [h other]
  by_cases ho : other = location
  · simp [ho, hfile, Entry.fixed]
  · simp [ho, funext Entry.fixed_nil]

/-- What was fixed by fewer names is fixed all the same. -/
theorem Fixes.at?_eq {whole mended fixed fixed' : FileTree} {all some : Location → List Text}
    (h : Fixes some whole mended) (hsub : ∀ location, some location ⊆ all location)
    (hall : ∀ location, ∀ name ∈ all location, VisibilityFix.IsSimple name)
    (hfixed : Fixes all whole fixed) (hfixed' : Fixes all mended fixed') (location : Location) :
    fixed'.at? location = fixed.at? location := by
  rw [hfixed'.entries, hfixed.entries, h.entries, Option.map_map]
  exact congrArg (Option.map · _) (funext (Entry.fixed_fixed (hall location) (hsub location)))

/-- The medium takes the file at the location as fixes leave it, whatever their names. -/
def TakesFixes (tree : FileTree) (location : Location) : Prop :=
  ∀ bytes, tree.at? location = some (.file bytes) →
    ∀ names, tree.breaks? location (VisibilityFix.fixedBytes names bytes) = none

theorem Fixes.takesFixes {location : Location} (h : Fixes names tree tree')
    (htakes : tree.TakesFixes location) : tree'.TakesFixes location := by
  intro bytes hfile more
  rw [h.entries location] at hfile
  obtain ⟨entry, hentry, hfixed⟩ := Option.map_eq_some_iff.mp hfile
  cases entry with
  | directory => cases hfixed
  | file old =>
    cases hfixed
    rw [h.medium_eq, ← VisibilityFix.fixedBytes_append]
    exact htakes old hentry _

/-- After all names were applied, a part of a file was written that the medium does not take. -/
inductive BreaksOff (names : Location → List Text) (tree : FileTree) : FileTree → Prop
  | mk {between : FileTree} {location : Location} {part : ByteArray} :
      Fixes names tree between → ¬ tree.TakesFixes location →
      between.isDirectory location = false →
      BreaksOff names tree (between.set location (.file part))

theorem Fixes.breaksOff (h : Fixes names tree tree') (h' : BreaksOff more tree' tree'') :
    BreaksOff (fun location => names location ++ more location) tree tree'' := by
  obtain ⟨hfixes, hnot, hd⟩ := h'
  exact ⟨h.trans hfixes, fun htakes => hnot (h.takesFixes htakes), hd⟩

end FileTree

-- ---------------------------------------------------------------------------
-- Tasks
-- ---------------------------------------------------------------------------

namespace VisibilityFix

variable {σ : Type} {state state' : σ} {world world' : World} {fault : Fault} {path : Path}
  {base : Option Path}

/-- A file may have the path, and the path leads to the location. -/
def LeadsTo (tree : FileTree) (location : Location) (path : Path) : Prop :=
  pathFault? path = none ∧ tree.locate path = .found location

instance (tree : FileTree) (location : Location) (path : Path) :
    Decidable (LeadsTo tree location path) :=
  decidable_of_iff ((pathFault? path).isNone ∧ tree.locate path = .found location) <| by
    simp [LeadsTo]

/-- The names that the groups have for the file at the location. -/
def namesFor (base : Option Path) (groups : List (Text × List Text)) (tree : FileTree)
    (location : Location) : List Text :=
  groups.flatMap fun entry =>
    if LeadsTo tree location (sourcePath base entry.1) then entry.2 else []

/-- No file can have the path, nothing is there, or a text. -/
def IsVisitable (tree : FileTree) (path : Path) : Prop :=
  pathFault? path ≠ none ∨ tree.IsReadable path

/-- The fix of the groups is cut short: it comes to a file that the medium does not take with the
names up to there, and all paths up to there can be visited. -/
inductive IsCutShort (base : Option Path) (groups : List (Text × List Text)) (tree : FileTree) :
    Prop
  | mk {done : List (Text × List Text)} {entry : Text × List Text}
      {rest : List (Text × List Text)} {location : Location} {bytes : ByteArray} :
      groups = done ++ entry :: rest →
      (∀ visited ∈ done ++ [entry], IsVisitable tree (sourcePath base visited.1)) →
      LeadsTo tree location (sourcePath base entry.1) → tree.at? location = some (.file bytes) →
      tree.breaks? location
        (fixedBytes (namesFor base (done ++ [entry]) tree location) bytes) ≠ none →
      IsCutShort base groups tree

theorem namesFor_cons (entry : Text × List Text) (groups : List (Text × List Text))
    (tree : FileTree) (location : Location) : namesFor base (entry :: groups) tree location =
      namesFor base [entry] tree location ++ namesFor base groups tree location := by
  simp [namesFor]

theorem namesFor_congr {tree tree' : FileTree} (h : ∀ path, tree'.locate path = tree.locate path)
    (groups : List (Text × List Text)) :
    namesFor base groups tree' = namesFor base groups tree := by
  funext location
  refine List.flatMap_congr fun entry _ => if_congr ?_ rfl rfl
  rw [LeadsTo, LeadsTo, h]

theorem isVisitable_iff_of_fixes (path : Path) {tree tree' : FileTree}
    {names : Location → List Text}
    (h : FileTree.Fixes names tree tree') : IsVisitable tree' path ↔ IsVisitable tree path :=
  or_congr_right h.isReadable_iff

section

variable {bytes : ByteArray} {content : String} {names : List Text}

/-- A text in which a name occurs is written. -/
theorem ends_fixFile_of_count {files : FileTree} (state : σ) (hpath : pathFault? path = none)
    (hread : Ends (readText path) state world (readAs content) state world)
    (hcount : (fixText names (readAs content)).2 ≠ 0)
    (hwrite : world.files.write? path
      ((fixText names (readAs content)).1.utf8?.getD .empty) = some files) :
    Ends (fixFile path names) state world (fixText names (readAs content)).2 state
      { world with files, printed := world.printed ++ ["Fixed visibility in: " ++ path.name] } := by
  have hencodable := isEncodable_fixText names (isEncodable_readAs content)
  refine ends_bind.mpr ⟨_, _, _, hread, ?_⟩
  dsimp only
  rw [if_neg hcount]
  simp only [ends_bind, ends_writeText, ends_print, ends_pure]
  exact ⟨(), _, _, ⟨hpath, hencodable, rfl, files, hwrite, rfl⟩, (), _, _, ⟨rfl, rfl⟩, trivial,
    rfl, rfl⟩

/-- A text in which a name occurs and that is not taken breaks off. -/
theorem fails_fixFile_of_count {opened files : FileTree} (state : σ)
    (hpath : pathFault? path = none)
    (hread : Ends (readText path) state world (readAs content) state world)
    (hcount : (fixText names (readAs content)).2 ≠ 0)
    (hopened : world.files.opened? path = some opened)
    (hfill : opened.fill path ((fixText names (readAs content)).1.utf8?.getD .empty) =
      (files, false)) :
    Fails (fixFile path names) state world .fileSystem state { world with files } := by
  have hencodable := isEncodable_fixText names (isEncodable_readAs content)
  refine fails_bind.mpr (.inr ⟨_, _, _, hread, ?_⟩)
  dsimp only
  rw [if_neg hcount]
  have hopen : Ends (openFile path) state world () state { world with files := opened } :=
    ends_openFile.mpr ⟨hpath, rfl, opened, hopened, rfl⟩
  refine fails_bind.mpr (.inl (fails_bind.mpr (.inr ⟨_, _, _, hopen, ?_⟩)))
  exact fails_fill.mpr ⟨rfl, .inr ⟨hencodable, rfl, files, hfill, rfl⟩⟩

/-- A text file is fixed, if the medium takes it. -/
theorem outcome_fixFile (names : List Text) (state : σ) (hpath : pathFault? path = none)
    (hbytes : world.files.read? path = some bytes)
    (hcontent : String.fromUTF8? bytes = some content) :
    (∃ count world', Ends (fixFile path names) state world count state world' ∧
      FileTree.Fixes (fun location => if LeadsTo world.files location path then names else [])
        world.files world'.files) ∨
    ∃ world', Fails (fixFile path names) state world .fileSystem state world' ∧
      FileTree.BreaksOff (fun _ => []) world.files world'.files ∧
      ∃ location, LeadsTo world.files location path ∧
        world.files.at? location = some (.file bytes) ∧
        world.files.breaks? location (fixedBytes names bytes) ≠ none := by
  have hread : Ends (readText path) state world (readAs content) state world :=
    ends_bind.mpr ⟨_, _, _, ends_readChars.mpr ⟨hpath, ⟨bytes, content, hbytes, hcontent, rfl⟩,
      rfl, rfl⟩, ends_pure.mpr ⟨rfl, rfl, rfl⟩⟩
  obtain ⟨location, hlocate, hfile⟩ := FileTree.read?_eq_some.mp hbytes
  have hfixed : fixedBytes names bytes = _ := fixedBytes_of_content hcontent
  have hnames : (fun other => if LeadsTo world.files other path then names else []) =
      fun other => if other = location then names else [] := by
    funext other
    exact if_congr (by simp [LeadsTo, hpath, hlocate, eq_comm]) rfl rfl
  rw [hnames]
  by_cases hcount : (fixText names (readAs content)).2 = 0
  · rw [if_pos hcount] at hfixed
    have hends : Ends (fixFile path names) state world 0 state world := by
      refine ends_bind.mpr ⟨_, _, _, hread, ?_⟩
      dsimp only
      rw [if_pos hcount]
      exact ends_pure.mpr ⟨rfl, rfl, rfl⟩
    refine .inl ⟨0, world, hends, FileTree.fixes_of_at? hfile rfl fun other => ?_⟩
    rw [hfixed]
    split
    · next ho => rw [ho, hfile]
    · rfl
  · rw [if_neg hcount] at hfixed
    have hd : world.files.isDirectory location = false := by simp [FileTree.isDirectory, hfile]
    cases hbreaks : world.files.breaks? location (fixedBytes names bytes) with
    | none =>
      rw [hfixed] at hbreaks
      refine .inl ⟨_, _, ends_fixFile_of_count state hpath hread hcount
        (FileTree.write?_eq_some.mpr ⟨location, hlocate, hd, hbreaks, rfl⟩),
        FileTree.fixes_of_at? hfile rfl fun other => ?_⟩
      simp [FileTree.at?_set (FileTree.isAbove_of_not_isDirectory hd), hfixed]
    | some size =>
      have hnot : ¬ world.files.TakesFixes location := fun htakes => by
        simp [htakes bytes hfile names] at hbreaks
      have hopened := FileTree.opened?_eq_some.mpr ⟨location, hlocate, hd, rfl⟩
      have hfill := FileTree.fill_of_opened hlocate hd (fixedBytes names bytes)
      have hcut : world.files.breaks? location (fixedBytes names bytes) ≠ none := by
        simp [hbreaks]
      rw [hbreaks, hfixed] at hfill
      exact .inr ⟨_, fails_fixFile_of_count state hpath hread hcount hopened hfill,
        ⟨.refl (fun _ => rfl) _, hnot, hd⟩, location, ⟨hpath, hlocate⟩, hfile, hcut⟩

end

section

variable {text : Text} {names : List Text} {groups rest : List (Text × List Text)}

theorem namesFor_singleton (text : Text) (names : List Text) (tree : FileTree) :
    namesFor base [(text, names)] tree =
      fun location => if LeadsTo tree location (sourcePath base text) then names else [] := by
  funext location
  simp [namesFor]

theorem run_fixFiles_cons {there : Bool} (names : List Text) (rest : List (Text × List Text))
    (h : Ends (isThere (sourcePath base text)) state world there state world) :
    fixFiles (m := StateM World) base ((text, names) :: rest) state world =
      (if there then do
        let count ← fixFile (sourcePath base text) names
        return count + (← fixFiles base rest)
      else do
        notify (.sourceMissing (sourcePath base text).toText)
        fixFiles base rest : Task (StateM World) σ Nat) state world := by
  rw [fixFiles, run_bind, h]

/-- Where nothing is, nothing is fixed. -/
theorem fixes_of_isAbsent {tree : FileTree} (h : tree.IsAbsent (sourcePath base text)) :
    FileTree.Fixes (namesFor base [(text, names)] tree) tree tree := by
  refine ⟨rfl, fun location => ?_⟩
  rw [namesFor_singleton]
  dsimp only
  split
  · next hleads =>
    obtain hpath | hthere := h
    · exact absurd hleads.1 hpath
    · have hnone : tree.at? location = none := by simpa [FileTree.isThere?, hleads.2] using hthere
      rw [hnone]
      rfl
  · rw [funext Entry.fixed_nil, Option.map_id']

theorem ends_isThere_of_isAbsent (state : σ) (h : world.files.IsAbsent path) :
    Ends (isThere path) state world false state world := by
  cases hpath : pathFault? path with
  | some fault => simp [isThere, hpath, ends_pure]
  | none => exact (ends_isThere hpath).mpr ⟨h.resolve_left (by simp [hpath]), rfl, rfl⟩

/-- What can be visited is, and the fix goes on with the rest unless the file is not taken. -/
theorem run_fixFiles_of_isVisitable (names : List Text) (rest : List (Text × List Text)) (state : σ)
    (h : IsVisitable world.files (sourcePath base text)) :
    (∃ count between, FileTree.Fixes (namesFor base [(text, names)] world.files) world.files
        between.files ∧
      fixFiles (m := StateM World) base ((text, names) :: rest) state world =
        (do return count + (← fixFiles base rest) : Task (StateM World) σ Nat) state between) ∨
    ∃ world', Fails (fixFiles base ((text, names) :: rest)) state world .fileSystem state world' ∧
      FileTree.BreaksOff (fun _ => []) world.files world'.files ∧
      IsCutShort base ((text, names) :: rest) world.files := by
  by_cases habsent : world.files.IsAbsent (sourcePath base text)
  · refine .inl ⟨0, { world with
      notices := world.notices ++ [.sourceMissing (sourcePath base text).toText] },
      fixes_of_isAbsent habsent, ?_⟩
    rw [run_fixFiles_cons names rest (ends_isThere_of_isAbsent state habsent),
      if_neg Bool.false_ne_true, run_bind, run_notify]
    simp
  · have hpath : pathFault? (sourcePath base text) = none :=
      by_contra fun hfault => habsent (.inl hfault)
    obtain ⟨hthere, bytes, content, hbytes, hcontent⟩ := (or_assoc.mpr h).resolve_left habsent
    have hends : Ends (isThere (sourcePath base text)) state world true state world :=
      (ends_isThere hpath).mpr ⟨hthere, rfl, rfl⟩
    have hrun := run_fixFiles_cons names rest hends
    rcases outcome_fixFile names state hpath hbytes hcontent with
      ⟨count, between, hends, hfixes⟩ | ⟨world', hfails, hbreaks, location, hleads, hfile, hcut⟩
    · refine .inl ⟨count, between, by rwa [namesFor_singleton], ?_⟩
      rw [hrun, if_pos rfl, run_bind, hends]
    · refine .inr ⟨world', ?_, hbreaks, .mk (List.nil_append _).symm (by simpa using h) hleads
        hfile ?_⟩
      · rw [Fails, hrun, if_pos rfl]
        exact fails_bind.mpr (.inl hfails)
      · simpa [namesFor_singleton, hleads] using hcut

/-- What cannot be visited stops the fix. -/
theorem fails_fixFiles_of_not_isVisitable (names : List Text) (rest : List (Text × List Text))
    (state : σ) (h : ¬ IsVisitable world.files (sourcePath base text)) :
    ∃ fault, Fails (fixFiles base ((text, names) :: rest)) state world fault state world := by
  obtain ⟨hpath, hunreadable⟩ := not_or.mp h
  rcases ends_or_fails (isThere (sourcePath base text)) state world with
    ⟨there, state, world, hthere⟩ | ⟨fault, state, world, hthere⟩
  · obtain ⟨rfl, rfl, -⟩ := of_ends_isThere hthere
    cases there with
    | false => exact absurd (or_assoc.mp (.inl (isAbsent_of_ends_isThere hthere))) h
    | true =>
      rcases ends_or_fails (readText (sourcePath base text)) state world with
        ⟨content, _, _, hread⟩ | ⟨fault, state, world, hread⟩
      · obtain ⟨_, _, _, hchars, -⟩ := ends_bind.mp hread
        obtain ⟨hpath, ⟨bytes, content, hbytes, hcontent, -⟩, -⟩ := ends_readChars.mp hchars
        exact absurd (.inr ⟨((ends_isThere hpath).mp hthere).1, bytes, content, hbytes, hcontent⟩)
          hunreadable
      · obtain ⟨rfl, rfl, -⟩ := fails_readText hread
        refine ⟨fault, ?_⟩
        rw [Fails, run_fixFiles_cons names rest hthere, if_pos rfl]
        exact fails_bind.mpr (.inl (fails_bind.mpr (.inl hread)))
  · obtain ⟨rfl, rfl, -⟩ := fails_isThere hthere
    exact ⟨fault, fails_bind.mpr (.inl hthere)⟩

/-- Where a fix of the groups stops: at a path that cannot be visited, with all names of the groups
before it applied and of the others none, or at a file that is not taken. -/
inductive Stops (base : Option Path) (groups : List (Text × List Text)) (tree : FileTree) :
    FileTree → Prop
  | barred {done : List (Text × List Text)} {entry : Text × List Text}
      {rest : List (Text × List Text)} {tree' : FileTree} : groups = done ++ entry :: rest →
      ¬ IsVisitable tree (sourcePath base entry.1) →
      FileTree.Fixes (namesFor base done tree) tree tree' → Stops base groups tree tree'
  | broken {names : Location → List Text} {tree' : FileTree} :
      FileTree.BreaksOff names tree tree' → IsCutShort base groups tree →
      Stops base groups tree tree'

theorem fixes_cons {tree between tree' : FileTree}
    (hfixes : FileTree.Fixes (namesFor base [(text, names)] tree) tree between)
    (h : FileTree.Fixes (namesFor base groups between) between tree') :
    FileTree.Fixes (namesFor base ((text, names) :: groups) tree) tree tree' := by
  rw [funext (namesFor_cons _ _ _), ← namesFor_congr hfixes.locate groups]
  exact hfixes.trans h

theorem IsCutShort.cons {tree between : FileTree}
    (hvisitable : IsVisitable tree (sourcePath base text))
    (hfixes : FileTree.Fixes (namesFor base [(text, names)] tree) tree between)
    (h : IsCutShort base groups between) : IsCutShort base ((text, names) :: groups) tree := by
  obtain ⟨rfl, hvisited, ⟨hpath, hlocate⟩, hfile, hcut⟩ := h
  rw [hfixes.locate] at hlocate
  rw [hfixes.entries, Option.map_eq_some_iff] at hfile
  obtain ⟨entry, hentry, hfixed⟩ := hfile
  cases entry with
  | directory => cases hfixed
  | file bytes =>
    cases hfixed
    refine .mk (List.cons_append ..).symm (List.forall_mem_cons.mpr ⟨hvisitable, fun other ho => ?_⟩)
      ⟨hpath, hlocate⟩ hentry ?_
    · exact (isVisitable_iff_of_fixes _ hfixes).mp (hvisited other ho)
    · rwa [hfixes.medium_eq, ← fixedBytes_append, namesFor_congr hfixes.locate,
        ← namesFor_cons] at hcut

theorem Stops.cons {tree between tree' : FileTree}
    (hvisitable : IsVisitable tree (sourcePath base text))
    (hfixes : FileTree.Fixes (namesFor base [(text, names)] tree) tree between)
    (h : Stops base groups between tree') : Stops base ((text, names) :: groups) tree tree' := by
  cases h with
  | barred hgroups hbarred hlater =>
    exact .barred (congrArg ((text, names) :: ·) hgroups)
      ((isVisitable_iff_of_fixes _ hfixes).not.mp hbarred) (fixes_cons hfixes hlater)
  | broken hbreaks hcut => exact .broken (hfixes.breaksOff hbreaks) (hcut.cons hvisitable hfixes)

/-- What becomes of a fix: it comes to its end if all paths can be visited and all files are taken,
and stops at the first where that is not so. -/
theorem outcome_fixFiles (base : Option Path) (groups : List (Text × List Text)) (state : σ)
    (world : World) :
    (∃ total world', Ends (fixFiles base groups) state world total state world' ∧
      (∀ entry ∈ groups, IsVisitable world.files (sourcePath base entry.1)) ∧
      FileTree.Fixes (namesFor base groups world.files) world.files world'.files) ∨
    ∃ fault world', Fails (fixFiles base groups) state world fault state world' ∧
      Stops base groups world.files world'.files := by
  induction groups generalizing world with
  | nil => exact .inl ⟨0, world, ends_pure.mpr ⟨rfl, rfl, rfl⟩, by simp, .refl (fun _ => rfl) _⟩
  | cons first groups ih =>
    obtain ⟨text, names⟩ := first
    by_cases hfirst : IsVisitable world.files (sourcePath base text)
    · rcases run_fixFiles_of_isVisitable names groups state hfirst with
        ⟨count, between, hfixes, hrun⟩ | ⟨world', hfails, hbreaks, hcut⟩
      · rcases ih between with ⟨total, world', hends, hrest, h⟩ | ⟨fault, world', hfails, hstops⟩
        · refine .inl ⟨count + total, world', ?_, ?_, fixes_cons hfixes h⟩
          · rw [Ends, hrun]
            exact ends_bind.mpr ⟨_, _, _, hends, ends_pure.mpr ⟨rfl, rfl, rfl⟩⟩
          · exact List.forall_mem_cons.mpr ⟨hfirst, fun entry hm =>
              (isVisitable_iff_of_fixes _ hfixes).mp (hrest entry hm)⟩
        · refine .inr ⟨fault, world', ?_, hstops.cons hfirst hfixes⟩
          rw [Fails, hrun]
          exact fails_bind.mpr (.inl hfails)
      · exact .inr ⟨_, world', hfails, .broken hbreaks hcut⟩
    · obtain ⟨fault, hfails⟩ := fails_fixFiles_of_not_isVisitable names groups state hfirst
      exact .inr ⟨fault, world, hfails,
        .barred (List.nil_append _).symm hfirst (.refl (fun _ => rfl) _)⟩

theorem fixes_of_ends_fixFiles {total : Nat}
    (h : Ends (fixFiles base groups) state world total state' world') : state' = state ∧
      FileTree.Fixes (namesFor base groups world.files) world.files world'.files := by
  rcases outcome_fixFiles base groups state world with ⟨_, _, hends, -, hfixes⟩ |
    ⟨_, _, hfails, -⟩
  · obtain ⟨-, rfl, rfl⟩ := hends.unique h
    exact ⟨rfl, hfixes⟩
  · cases h.symm.trans hfails

theorem stops_of_fails_fixFiles
    (h : Fails (fixFiles base groups) state world fault state' world') :
    state' = state ∧ Stops base groups world.files world'.files := by
  rcases outcome_fixFiles base groups state world with ⟨_, _, hends, -⟩ | ⟨_, _, hfails, hstops⟩
  · cases h.symm.trans hends
  · cases h.symm.trans hfails
    exact ⟨rfl, hstops⟩

end

-- ---------------------------------------------------------------------------
-- Runs
-- ---------------------------------------------------------------------------

section

variable {report : Path} {root : Label} {tree tree' : FileTree} {names : Location → List Text}

/-- The names by path that the lines of the report come to. -/
def groupsAt (tree : FileTree) (report : Path) : List (Text × List Text) :=
  (group (Plan.recordsAt tree report).eraseDups).1

/-- A file that was there can be removed. -/
theorem exists_remove? {bytes : ByteArray} (h : FileTree.Fixes names tree tree')
    (hread : tree.read? report = some bytes) : ∃ left, tree'.remove? report = some left := by
  obtain ⟨location, hlocate, hfile⟩ := FileTree.read?_eq_some.mp hread
  have hfixed : tree'.at? location = some (.file (fixedBytes (names location) bytes)) := by
    rw [h.entries location, hfile]
    rfl
  exact ⟨tree'.erase location, by simp only [FileTree.remove?, h.locate report, hlocate, hfixed]⟩

theorem fails_remove {path : Path}
    (h : Fails (require (Host.remove path)) state world fault state' world') :
    world' = world ∧ world.files.remove? path = none := by
  obtain ⟨-, -, hrun⟩ := fails_require.mp h
  obtain ⟨hnone, rfl⟩ := World.attempt_refused.mp hrun
  exact ⟨rfl, hnone⟩

theorem not_fails_nothingFound : ¬ Fails nothingFound state world fault state' world' := by
  simp only [nothingFound, print, fails_bind, fails_ofHost, fails_pure, and_false, exists_false,
    or_self, not_false_eq_true]

/-- A run that comes to its end has fixed all files and removed the report, if there was one. -/
theorem fixes_of_ends_run {total : Nat}
    (h : Ends (run report root) state world total state' world') :
    world.files.IsAbsent report ∧ world'.files = world.files ∨
      ∃ names between, FileTree.Fixes names world.files between ∧
        between.remove? report = some world'.files ∧
        ∀ base, base? root = some base →
          names = namesFor base (groupsAt world.files report) world.files := by
  unfold run at h
  obtain ⟨there, state, world, hthere, hrun⟩ := ends_bind.mp h
  obtain ⟨rfl, rfl, hpath⟩ := of_ends_isThere hthere
  cases there with
  | false => exact .inl ⟨isAbsent_of_ends_isThere hthere, (ends_nothingFound hrun).2⟩
  | true =>
    obtain ⟨records, state, world, hread, hfound⟩ := ends_bind.mp hrun
    obtain ⟨-, rfl, rfl, rfl⟩ := (ReportWriter.ends_readReport (hpath rfl).1).mp hread
    split at hfound
    · next hnone =>
      obtain ⟨_, _, between, hremove, hnothing⟩ := ends_bind.mp hfound
      refine .inr ⟨_, _, .refl (fun _ => rfl) _, ?_, fun base _ => ?_⟩
      · rw [(ends_nothingFound hnothing).2, (ends_remove hremove).2]
      · rw [groupsAt, List.isEmpty_iff.mp hnone]
        rfl
    · simp only [ends_bind, ends_ofOption, ends_notifyAll, ends_print, ends_pure] at hfound
      obtain ⟨base, _, _, ⟨hbase, rfl, rfl⟩, _, _, _, ⟨rfl, rfl⟩, _, _, _, hfix, _, _, _, hremove,
        _, _, _, ⟨rfl, rfl⟩, -, rfl, rfl⟩ := hfound
      refine .inr ⟨_, _, (fixes_of_ends_fixFiles hfix).2, (ends_remove hremove).2,
        fun other ho => ?_⟩
      rw [← Option.some.inj (hbase.symm.trans ho)]
      rfl

/-- A run that stops has done nothing to files, or its fix has stopped. -/
theorem stops_of_fails_run (h : Fails (run report root) state world fault state' world') :
    world'.files = world.files ∧ (¬ world.files.IsReadable report ∨ base? root = none) ∨
      ∃ base, base? root = some base ∧
        Stops base (groupsAt world.files report) world.files world'.files := by
  unfold run at h
  rcases fails_bind.mp h with hthere | ⟨there, state, world, hthere, hrun⟩
  · obtain ⟨rfl, rfl, -, hnone⟩ := fails_isThere hthere
    exact .inl ⟨rfl, .inl (by simp [FileTree.IsReadable, hnone])⟩
  obtain ⟨rfl, rfl, hpath⟩ := of_ends_isThere hthere
  cases there with
  | false => exact absurd hrun not_fails_nothingFound
  | true =>
    rcases fails_bind.mp hrun with hread | ⟨records, state, world, hread, hfound⟩
    · have hunreadable : ¬ world.files.IsReadable report := fun hreadable => by
        have hends : Ends (ReportWriter.readReport report) state world _ state world :=
          (ReportWriter.ends_readReport (hpath rfl).1).mpr ⟨hreadable, rfl, rfl, rfl⟩
        cases hends.symm.trans hread
      obtain ⟨-, rfl, -⟩ := ReportWriter.fails_readReport hread
      exact .inl ⟨rfl, .inl hunreadable⟩
    obtain ⟨hreadable, rfl, rfl, rfl⟩ := (ReportWriter.ends_readReport (hpath rfl).1).mp hread
    obtain ⟨_, bytes, content, hbytes, -⟩ := hreadable.resolve_left (by simp [(hpath rfl).2])
    split at hfound
    · rcases fails_bind.mp hfound with hremove | ⟨_, _, _, -, hnothing⟩
      · obtain ⟨left, hleft⟩ := exists_remove? (.refl (fun _ => rfl) world.files) hbytes
        cases hleft.symm.trans (fails_remove hremove).2
      · exact absurd hnothing not_fails_nothingFound
    · simp only [print, fails_bind, fails_ofOption, ends_ofOption, fails_notifyAll, ends_notifyAll,
        fails_ofHost, fails_pure, and_false, exists_false, or_false, false_or] at hfound
      rcases hfound with ⟨hbase, -, -, rfl⟩ | ⟨base, _, _, ⟨hbase, rfl, rfl⟩, _, _, _, ⟨rfl, rfl⟩,
        hfix | ⟨total, _, between, hfix, hremove⟩⟩
      · exact .inl ⟨rfl, .inr hbase⟩
      · exact .inr ⟨base, hbase, (stops_of_fails_fixFiles hfix).2⟩
      · obtain ⟨left, hleft⟩ := exists_remove? (fixes_of_ends_fixFiles hfix).2 hbytes
        cases hleft.symm.trans (fails_remove hremove).2

end

end VisibilityFix

end PreviewShots
