import PreviewShots.Proofs.Plan

/-!
# Any round

What a round is to do, whatever the session was through before it: the markers are the
names that will be found to be some. A first round, which `Plan` describes, is the case of
the markers of its table (`first`). Of all files with a unit of one name the first has it,
unless the name was taken before (`mem_sources_iff`).
-/

namespace PreviewShots

/-- A round, and the names that are found to be markers in it. -/
structure Round where
  table : SymbolTable
  config : Config
  marker : Key → Prop

namespace Round

section

variable (r : Round)

-- ---------------------------------------------------------------------------
-- Functions
-- ---------------------------------------------------------------------------

/-- The annotation resolves to a marker. -/
def IsMark (a : Annotation) : Prop :=
  ∃ decl, r.table.resolveName a.typeName = some decl ∧ r.marker decl.qualifiedName.key

def IsMarked (function : FunctionDecl) : Prop :=
  ∃ a ∈ function.annotations, r.IsMark a

def IsViolation (function : FunctionDecl) : Prop :=
  r.IsMarked function ∧ function.origin ≠ .synthetic ∧ function.isPrivate = true

/-- A function that is offered for a test, be it sound or not. -/
def IsOffered (function : FunctionDecl) : Prop :=
  r.IsMarked function ∧ function.origin ≠ .synthetic ∧ function.isPrivate = false ∧
    ¬ Plan.OptsOut r.table r.config function

def IsDeferred (function : FunctionDecl) : Prop :=
  r.IsOffered function ∧ (r.table.validates function).found? = some false

def IsEligible (function : FunctionDecl) : Prop :=
  r.IsOffered function ∧ (r.table.validates function).found? = some true

open Classical in
noncomputable def marks (annotations : List Annotation) : List Annotation :=
  annotations.filter fun a => r.IsMark a

open Classical in
noncomputable def violationsOf (path : Label) (functions : List FunctionDecl) : List Violation :=
  (functions.filter fun function => r.IsViolation function).map fun function =>
    ⟨path, function.simpleName⟩

open Classical in
noncomputable def deferredOf (functions : List FunctionDecl) : List FunctionDecl :=
  functions.filter fun function => r.IsDeferred function

open Classical in
noncomputable def eligibleOf (file : SourceFile) (functions : List FunctionDecl) : List Eligible :=
  (functions.filter fun function => r.IsEligible function).map fun function =>
    ⟨file, function, r.marks function.annotations⟩

-- ---------------------------------------------------------------------------
-- Files and units
-- ---------------------------------------------------------------------------

noncomputable def violations (files : List SourceFile) : List Violation :=
  files.flatMap fun file => r.violationsOf file.path file.functions

noncomputable def deferred (files : List SourceFile) : List FunctionDecl :=
  files.flatMap fun file => r.deferredOf file.functions

noncomputable def eligible (files : List SourceFile) : List Eligible :=
  files.flatMap fun file => r.eligibleOf file file.functions

/-- The tests of a file. -/
noncomputable def fragments (file : SourceFile) : List Fragment :=
  (r.eligibleOf file file.functions).filterMap (Synthesis.fragment? r.table r.config)

/-- The unit that a file has, if one of its functions is eligible. -/
noncomputable def unitKey? (file : SourceFile) : Option UnitKey :=
  (r.eligibleOf file file.functions).head?.map fun first =>
    ⟨first.function.package, FileName.base file.fileName ++ r.config.suffix⟩

/-- The units of the files and where each is from, those passed over whose names are taken. -/
noncomputable def sources (taken : List Text) : List SourceFile → List (UnitKey × SourceFile)
  | [] => []
  | file :: files =>
    match r.unitKey? file with
    | none => sources taken files
    | some key =>
      if key.qualifiedName ∈ taken then sources taken files
      else (key, file) :: sources (taken ++ [key.qualifiedName]) files

/-- The first of the files whose unit has the name. -/
noncomputable def firstOf? (name : Text) (files : List SourceFile) : Option SourceFile :=
  files.find? fun file => (r.unitKey? file).any (·.qualifiedName = name)

noncomputable def unitText (key : UnitKey) (file : SourceFile) : Text :=
  TestFile.render ((packageName? key.package).getD []) (r.fragments file)

noncomputable def placeUnit? (directory : Path) (tree : FileTree)
    (source : UnitKey × SourceFile) : Option FileTree :=
  tree.place? (Plan.unitPath directory source.1)
    ((r.unitText source.1 source.2).utf8?.getD .empty)

end

-- ---------------------------------------------------------------------------
-- One unit for each name
-- ---------------------------------------------------------------------------

variable {r : Round} {taken : List Text} {files : List SourceFile}

theorem sources_append (r : Round) (taken : List Text) (files more : List SourceFile) :
    r.sources taken (files ++ more) = r.sources taken files ++
      r.sources (taken ++ (r.sources taken files).map (·.1.qualifiedName)) more := by
  induction files generalizing taken with
  | nil => simp [sources]
  | cons file files ih =>
    simp only [List.cons_append, sources]
    split
    · exact ih taken
    · split
      · exact ih taken
      · simp [ih]

theorem not_taken {source : UnitKey × SourceFile} (h : source ∈ r.sources taken files) :
    source.1.qualifiedName ∉ taken := by
  induction files generalizing taken with
  | nil => simp [sources] at h
  | cons file files ih =>
    simp only [sources] at h
    split at h
    · exact ih h
    · split at h
      · exact ih h
      · next key _ hfree =>
        rcases List.mem_cons.mp h with rfl | h
        · exact hfree
        · exact fun ht => ih h (List.mem_append_left _ ht)

theorem nodup_sources (r : Round) (taken : List Text) (files : List SourceFile) :
    ((r.sources taken files).map (·.1.qualifiedName)).Nodup := by
  induction files generalizing taken with
  | nil => simp [sources]
  | cons file files ih =>
    simp only [sources]
    split
    · exact ih taken
    · split
      · exact ih taken
      · refine List.nodup_cons.mpr ⟨fun hm => ?_, ih _⟩
        obtain ⟨source, hs, hname⟩ := List.mem_map.mp hm
        exact not_taken hs (by simp [hname])

theorem sources_sublist (r : Round) (taken : List Text) (files : List SourceFile) :
    ((r.sources taken files).map (·.2)).Sublist files := by
  induction files generalizing taken with
  | nil => simp [sources]
  | cons file files ih =>
    simp only [sources]
    split
    · exact (ih taken).cons file
    · split
      · exact (ih taken).cons file
      · exact (ih _).cons_cons file

theorem taken_or_source (taken : List Text) {file : SourceFile} {key : UnitKey} (hm : file ∈ files)
    (hk : r.unitKey? file = some key) :
    key.qualifiedName ∈ taken ++ (r.sources taken files).map (·.1.qualifiedName) := by
  induction files generalizing taken with
  | nil => simp at hm
  | cons other files ih =>
    simp only [sources]
    rcases List.mem_cons.mp hm with rfl | hm
    · rw [hk]
      by_cases ht : key.qualifiedName ∈ taken <;> simp [ht]
    · split
      · exact ih taken hm
      · split
        · exact ih taken hm
        · next next _ _ => simpa [List.append_assoc] using ih (taken ++ [next.qualifiedName]) hm

theorem firstOf?_sources {source : UnitKey × SourceFile} (h : source ∈ r.sources taken files) :
    r.unitKey? source.2 = some source.1 ∧
      r.firstOf? source.1.qualifiedName files = some source.2 := by
  induction files generalizing taken with
  | nil => simp [sources] at h
  | cons file files ih =>
    have hnot := not_taken h
    simp only [sources] at h
    split at h
    · next hnone => simpa [firstOf?, hnone] using ih h
    next key hkey =>
    split at h
    · next htaken =>
      have hne : key.qualifiedName ≠ source.1.qualifiedName := fun he => hnot (he ▸ htaken)
      simpa [firstOf?, hkey, hne] using ih h
    · rcases List.mem_cons.mp h with rfl | h
      · simp [firstOf?, hkey]
      · have hne : key.qualifiedName ≠ source.1.qualifiedName := by
          intro he
          exact not_taken h (by simp [he])
        simpa [firstOf?, hkey, hne] using ih h

/-- The first file with a unit of a name has it, if the name is not taken. -/
theorem mem_sources_iff {key : UnitKey} {file : SourceFile} :
    (key, file) ∈ r.sources taken files ↔ r.unitKey? file = some key ∧
      key.qualifiedName ∉ taken ∧ r.firstOf? key.qualifiedName files = some file := by
  constructor
  · intro h
    obtain ⟨hkey, hfirst⟩ := firstOf?_sources h
    exact ⟨hkey, not_taken h, hfirst⟩
  · rintro ⟨hkey, hfree, hfirst⟩
    rcases List.mem_append.mp (taken_or_source taken (List.mem_of_find?_eq_some hfirst) hkey) with
      htaken | hm
    · exact absurd htaken hfree
    · obtain ⟨⟨found, other⟩, hs, hname⟩ := List.mem_map.mp hm
      obtain ⟨hkey', hfirst'⟩ := firstOf?_sources hs
      rw [hname, hfirst] at hfirst'
      obtain rfl := Option.some.inj hfirst'
      obtain rfl := Option.some.inj (hkey.symm.trans hkey')
      exact hs

-- ---------------------------------------------------------------------------
-- The first round
-- ---------------------------------------------------------------------------

/-- The round of a session that has seen no other. -/
def first (table : SymbolTable) (config : Config) : Round :=
  ⟨table, config, Marker.IsMarker table config.preview⟩

theorem first_sources (table : SymbolTable) (config : Config) (taken : List Text)
    (files : List SourceFile) :
    (first table config).sources taken files = Plan.sources table config taken files := by
  induction files generalizing taken with
  | nil => rfl
  | cons file files ih =>
    simp only [sources, Plan.sources, ih]
    rfl

end Round

theorem Plan.onePerName_sources {table : SymbolTable} {config : Config} (files : List SourceFile) :
    OnePerName table config files (sources table config [] files) := by
  rw [← Round.first_sources]
  refine ⟨Round.nodup_sources _ [] files, Round.sources_sublist _ [] files, ?_, ?_⟩
  · intro file hm key hk
    simpa using Round.taken_or_source (r := .first table config) [] hm hk
  · intro source hs
    exact Round.firstOf?_sources (r := .first table config) hs

end PreviewShots
