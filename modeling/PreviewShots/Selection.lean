import PreviewShots.Config
import PreviewShots.Marker.Classification

/-!
# Selection

Which functions of a file get a test. A function with a marker is eligible
unless it is private, which is a violation, opted out, or refers to types that
do not resolve, which defers it. Synthetic functions do not count.
-/

namespace PreviewShots

structure Eligible where
  file : SourceFile
  function : FunctionDecl
  markers : List Annotation

/-- What becomes of one function. -/
inductive Decision where
  | skipped
  | violation
  | deferred
  | eligible (markers : List Annotation)

structure Selection where
  eligible : List Eligible
  deferred : List FunctionDecl

namespace Selection

/-- Whether a file is scanned, if that can be told: the path of a source file has to
be a text. -/
def accepts? (config : Config) (file : SourceFile) : Option Bool :=
  if file.origin.isSource then
    file.path.text?.bind fun path => (config.isExcluded? path).map (!·)
  else some false

def optedOut (table : SymbolTable) (config : Config) (function : FunctionDecl) : Search Bool :=
  table.carries config.ignorePreview function.annotations

/-- What becomes of a function with these markers that is neither private nor opted out. -/
def decisionOf (markers : List Annotation) (isSound : Bool) : Decision :=
  if markers.isEmpty then .skipped else if isSound then .eligible markers else .deferred

variable {m : Type → Type} [Monad m]

def decision (table : SymbolTable) (config : Config) (function : FunctionDecl) :
    Task m Classifier Decision := do
  if function.origin = .synthetic then return .skipped
  let markers ← Marker.matching table function.annotations
  if function.isPrivate then return if markers.isEmpty then .skipped else .violation
  if ← Classifier.search table (optedOut table config function) then return .skipped
  return decisionOf markers (← Classifier.search table (table.validates function))

def empty : Selection := ⟨[], []⟩

/-- One more function, in front of those that follow it. -/
def add (file : SourceFile) (function : FunctionDecl) (later : Selection) : Decision → Selection
  | .skipped | .violation => later
  | .deferred => { later with deferred := function :: later.deferred }
  | .eligible markers => { later with eligible := ⟨file, function, markers⟩ :: later.eligible }

end Selection

end PreviewShots
