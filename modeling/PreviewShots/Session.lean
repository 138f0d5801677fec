import PreviewShots.Synthesis
import PreviewShots.UnitWriter
import PreviewShots.VisibilityReport

/-!
# Sessions

One round scans the new files of a table: it selects functions, writes the units
of their tests and reports violations. Verdicts, units and violations are kept
for later rounds, also when a round fails.
-/

namespace PreviewShots

structure Session where
  config : Config
  classifier : Classifier
  units : UnitWriter
  report : ReportWriter

namespace Session

def make (directory : Path) (options : Options) : Session :=
  let config := Config.ofOptions options
  { config
    classifier := .ofBase config.preview
    units := .make directory config.suffix
    report := .ofPath config.reportPath }

variable {m : Type → Type} [Monad m] [Host m] {α : Type}

def onUnits (task : Task m UnitWriter α) : Task m Session α :=
  Task.within Session.units (fun session units => { session with units }) task

def onReport (task : Task m ReportWriter α) : Task m Session α :=
  Task.within Session.report (fun session report => { session with report }) task

def onClassifier (task : Task m Classifier α) : Task m Session α :=
  Task.within Session.classifier (fun session classifier => { session with classifier }) task

def accepts (file : SourceFile) : Task m Session Bool := do
  Task.ofOption (Selection.accepts? (← get).config file)

/-- Selects functions of a file, and records violations if they are audited. -/
def selectFrom (table : SymbolTable) (audited : Bool) (file : SourceFile) :
    List FunctionDecl → Task m Session Selection
  | [] => return .empty
  | function :: rest => do
    let decision ← onClassifier (Selection.decision table (← get).config function)
    match decision with
    | .violation =>
      if audited then onReport (ReportWriter.record ⟨file.path, function.simpleName⟩)
    | _ => pure ()
    let later ← selectFrom table audited file rest
    return later.add file function decision

def select (table : SymbolTable) (audited : Bool) (file : SourceFile) : Task m Session Selection :=
  selectFrom table audited file file.functions

def synthesizeAll (table : SymbolTable) : List Eligible → Task m Session (List Fragment)
  | [] => return []
  | eligible :: rest => do
    let fragment ← onClassifier (eligible.synthesize table (← get).config)
    return fragment :: (← synthesizeAll table rest)

/-- Scans one accepted file; the functions that are deferred. -/
def scanFile (table : SymbolTable) (file : SourceFile) :
    Task m Session (List FunctionDecl) := do
  let selection ← select table true file
  let fragments ← synthesizeAll table selection.eligible
  let _ ← onUnits (UnitWriter.write file.path fragments)
  return selection.deferred

/-- Scans the accepted files; how many there were, and the functions deferred. -/
def scanFiles (table : SymbolTable) : List SourceFile → Task m Session (Nat × List FunctionDecl)
  | [] => return (0, [])
  | file :: rest => do
    if ← accepts file then
      let deferred ← scanFile table file
      let (count, later) ← scanFiles table rest
      return (count + 1, deferred ++ later)
    else scanFiles table rest

/-- Starts a round: nothing is known of its table, and its markers are seeded. -/
def start (table : SymbolTable) : Task m Session Unit := do
  modify fun session => { session with classifier := { session.classifier with stubs := [] } }
  let _ ← onClassifier (Marker.seed table)

/-- One round; the functions to be offered again later. -/
def round (table : SymbolTable) : Task m Session (List FunctionDecl) := do
  start table
  let (files, deferred) ← scanFiles table (← Task.ofOption table.newFiles?)
  let _ ← onReport ReportWriter.flush
  Task.notify (.roundDone files (← get).units.written.length deferred.length)
  return deferred

end Session

end PreviewShots
