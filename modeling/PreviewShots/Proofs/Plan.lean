import PreviewShots.Proofs.Host
import PreviewShots.Proofs.Marker.Graph
import PreviewShots.Synthesis
import PreviewShots.UnitWriter
import PreviewShots.VisibilityReport

/-!
# What a round is to do

The outcome of a first round as a table and a configuration determine it, apart from
any classifier or run: which functions are violations, deferred or eligible, which
units are written and from which files, and what the report holds afterwards. Markers
are those of `Marker.IsMarker`.
-/

namespace PreviewShots

/-- The private function that a notice warns of. -/
def Notice.record? : Notice → Option Record
  | .privatePreview name path => some ⟨path, name⟩
  | _ => none

def World.warned (world : World) : List Record :=
  world.notices.filterMap Notice.record?

namespace Plan

section

variable (table : SymbolTable) (config : Config)

-- ---------------------------------------------------------------------------
-- Functions
-- ---------------------------------------------------------------------------

/-- The annotation resolves to a marker. -/
def IsMark (a : Annotation) : Prop :=
  ∃ decl, table.resolveName a.typeName = some decl ∧
    Marker.IsMarker table config.preview decl.qualifiedName.key

def IsMarked (function : FunctionDecl) : Prop :=
  ∃ a ∈ function.annotations, IsMark table config a

def OptsOut (function : FunctionDecl) : Prop :=
  ∃ a ∈ function.annotations, table.ResolvesTo a.typeName config.ignorePreview

def IsViolation (function : FunctionDecl) : Prop :=
  IsMarked table config function ∧ function.origin ≠ .synthetic ∧ function.isPrivate = true

/-- A function that is offered for a test, be it sound or not. -/
def IsOffered (function : FunctionDecl) : Prop :=
  IsMarked table config function ∧ function.origin ≠ .synthetic ∧ function.isPrivate = false ∧
    ¬ OptsOut table config function

def IsDeferred (function : FunctionDecl) : Prop :=
  IsOffered table config function ∧ (table.validates function).found? = some false

def IsEligible (function : FunctionDecl) : Prop :=
  IsOffered table config function ∧ (table.validates function).found? = some true

open Classical in
noncomputable def marks (annotations : List Annotation) : List Annotation :=
  annotations.filter fun a => IsMark table config a

open Classical in
noncomputable def violationsOf (path : Label) (functions : List FunctionDecl) : List Violation :=
  (functions.filter fun function => IsViolation table config function).map fun function =>
    ⟨path, function.simpleName⟩

open Classical in
noncomputable def deferredOf (functions : List FunctionDecl) : List FunctionDecl :=
  functions.filter fun function => IsDeferred table config function

open Classical in
noncomputable def eligibleOf (file : SourceFile) (functions : List FunctionDecl) : List Eligible :=
  (functions.filter fun function => IsEligible table config function).map fun function =>
    ⟨file, function, marks table config function.annotations⟩

-- ---------------------------------------------------------------------------
-- Files
-- ---------------------------------------------------------------------------

/-- A Kotlin or Java file whose path is not excluded. -/
def IsAccepted (file : SourceFile) : Prop :=
  file.origin.isSource = true ∧ ∃ path, file.path.text? = some path ∧
    config.isExcluded? path = some false

open Classical in
noncomputable def accepted (files : List SourceFile) : List SourceFile :=
  files.filter fun file => IsAccepted config file

noncomputable def violations (files : List SourceFile) : List Violation :=
  files.flatMap fun file => violationsOf table config file.path file.functions

noncomputable def deferred (files : List SourceFile) : List FunctionDecl :=
  files.flatMap fun file => deferredOf table config file.functions

noncomputable def eligible (files : List SourceFile) : List Eligible :=
  files.flatMap fun file => eligibleOf table config file file.functions

-- ---------------------------------------------------------------------------
-- Units
-- ---------------------------------------------------------------------------

/-- The tests of a file. -/
noncomputable def fragments (file : SourceFile) : List Fragment :=
  (eligibleOf table config file file.functions).filterMap (Synthesis.fragment? table config)

/-- The unit that a file has, if one of its functions is eligible. -/
noncomputable def unitKey? (file : SourceFile) : Option UnitKey :=
  (eligibleOf table config file file.functions).head?.map fun first =>
    ⟨first.function.package, FileName.base file.fileName ++ config.suffix⟩

/-- The units of the files and where each is from, those passed over whose names are taken. -/
noncomputable def sources (taken : List Text) : List SourceFile → List (UnitKey × SourceFile)
  | [] => []
  | file :: files =>
    match unitKey? table config file with
    | none => sources taken files
    | some key =>
      if key.qualifiedName ∈ taken then sources taken files
      else (key, file) :: sources (taken ++ [key.qualifiedName]) files

/-- Where the unit is written. -/
def unitPath (directory : Path) (key : UnitKey) : Path :=
  (Outputs.ofDirectory directory).pathFor ((packageName? key.package).getD []) key.file "kt"

/-- What is kept of a unit: it depends on the file it is from and on no other. -/
def output (directory : Path) (source : UnitKey × SourceFile) : Output :=
  ⟨unitPath directory source.1, .bool false, [source.2.path]⟩

noncomputable def unitText (key : UnitKey) (file : SourceFile) : Text :=
  TestFile.render ((packageName? key.package).getD []) (fragments table config file)

noncomputable def placeUnit? (directory : Path) (tree : FileTree)
    (source : UnitKey × SourceFile) : Option FileTree :=
  tree.place? (unitPath directory source.1)
    ((unitText table config source.1 source.2).utf8?.getD .empty)

end

-- ---------------------------------------------------------------------------
-- The report
-- ---------------------------------------------------------------------------

/-- The records that are read from a file; none if there is no such file. -/
def recordsAt (tree : FileTree) (path : Path) : List Text :=
  match (tree.read? path).bind String.fromUTF8? with
  | some text => VisibilityReport.records (Text.ofChars (Text.unifyNewlines text.toList))
  | none => []

/-- The report with the records of the violations behind those it holds, each once. -/
def reportText (tree : FileTree) (path : Path) (violations : List Violation) : Text :=
  VisibilityReport.render <| VisibilityReport.merge (recordsAt tree path).eraseDups
    (violations.map (·.record.line))

/-- Without violations the report is left alone. -/
def placeReport? (path : Path) (violations : List Violation) (tree : FileTree) : Option FileTree :=
  if violations.isEmpty then some tree
  else tree.place? path ((reportText tree path violations).utf8?.getD .empty)

-- ---------------------------------------------------------------------------
-- One unit for each name
-- ---------------------------------------------------------------------------

/-- The first of the files whose unit has the name. -/
noncomputable def firstOf? (table : SymbolTable) (config : Config) (name : Text)
    (files : List SourceFile) : Option SourceFile :=
  files.find? fun file => (unitKey? table config file).any (·.qualifiedName = name)

/-- Every name that a unit of the files has, has one source: the first file with it. -/
structure OnePerName (table : SymbolTable) (config : Config) (files : List SourceFile)
    (sources : List (UnitKey × SourceFile)) : Prop where
  nodup : (sources.map (·.1.qualifiedName)).Nodup
  ordered : (sources.map (·.2)).Sublist files
  covers : ∀ file ∈ files, ∀ key, unitKey? table config file = some key →
    key.qualifiedName ∈ sources.map (·.1.qualifiedName)
  first : ∀ source ∈ sources, unitKey? table config source.2 = some source.1 ∧
    firstOf? table config source.1.qualifiedName files = some source.2

end Plan

end PreviewShots
