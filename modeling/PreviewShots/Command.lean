import PreviewShots.Dump.Table
import PreviewShots.Json.Reader
import PreviewShots.Session
import PreviewShots.Settings
import PreviewShots.VisibilityFix

/-!
# The command

Runs what the settings ask for: one round over a symbol dump, or the visibility
fix. The result is the exit status.
-/

namespace PreviewShots.Command

variable {m : Type → Type} [Monad m] [Host m] {σ τ α : Type}

-- ---------------------------------------------------------------------------
-- Input files
-- ---------------------------------------------------------------------------

/-- The characters of a file; none if there is no such file. -/
def readChars? (path : Text) : Task m σ (Option (List Char)) := do
  Task.checkPath (Path.parse path)
  if !Path.namesFile path || FileTree.pathLimit ≤ path.byteSize then return none
  try
    return some (← Task.readChars (Path.parse path))
  catch
    | .fileSystem => return none
    | fault => throw fault

/-- The value of a JSON file; none if there is no such file or it is not JSON. -/
def readJson (path : Text) : Task m σ (Option Json) := do
  match ← readChars? path with
  | none => return none
  | some chars =>
    match Json.parse (some Fault.digitLimit) chars with
    | .ok value => return some value
    | .error .malformed => return none
    | .error (.longInteger digits) => throw (.longInteger digits)

/-- Members become settings, whatever the kind of their values. -/
def optionsOf (members : List Member) : Options :=
  members.map fun m => (m.key, .string m.value.plain)

def loadOptions (path : Text) : Task m σ (Option Options) := do
  match ← readJson path with
  | none =>
    Task.notify (.optionsUnreadable path)
    return none
  | some (.object members) => return some (optionsOf members)
  | some _ =>
    Task.notify (.optionsNoObject path)
    return none

def tableOf (dump : Json) : Task m σ SymbolTable := do
  let table ← Task.ofExcept (Dump.table dump)
  Task.notify (.loaded table.files.length table.functionCount table.classNames.length)
  return table

def loadTable (path : Text) : Task m σ (Option SymbolTable) := do
  match ← readJson path with
  | none =>
    Task.notify (.dumpUnreadable path)
    return none
  | some dump =>
    try
      return some (← tableOf dump)
    catch
      | .dump cause =>
        Task.notify (.dumpMalformed path cause)
        return none
      | fault => throw fault

-- ---------------------------------------------------------------------------
-- Modes
-- ---------------------------------------------------------------------------

/-- A task with a state of its own. -/
def starting (initial : τ) (task : Task m τ α) : Task m σ (α × τ) := do
  let (result, final) ← Task.ofHost (task initial)
  return (← Task.ofExcept result, final)

def reportUnresolved : List FunctionDecl → Task m σ Unit
  | [] => return ()
  | function :: rest => do
    Task.notify (.unresolved function.qualifiedName.plain)
    reportUnresolved rest

/-- The one round of a run, and the manifest if it is asked for. -/
def process (table : SymbolTable) (manifest : Label) :
    Task m Session (List FunctionDecl) := do
  let deferred ← Session.round table
  reportUnresolved deferred
  match manifest.given? with
  | some path =>
    let _ ← Session.onUnits (UnitWriter.onOutputs (Outputs.writeManifest (Path.parse path)))
  | none => pure ()
  return deferred

def generate (settings : Settings) (options : Options) : Task m σ Nat := do
  match settings.symbols.given? with
  | none =>
    Task.notify .symbolsMissing
    return 1
  | some symbols =>
    Task.notify (.loading symbols)
    match ← loadTable symbols with
    | none =>
      Task.notify .exiting
      return 1
    | some table =>
      let directory := Path.parse (← Task.ofOption settings.outputDirectory.text?)
      let (deferred, session) ← starting (Session.make directory options)
        (process table settings.manifest)
      Task.notify (.complete session.units.outputs.created.length directory.toText
        deferred.length)
      return 0

/-- The options with the excluded fragments in the place of their own. -/
def exclude (fragments : List Text) (options : Options) : Options :=
  Keyed.put Options.excludedPaths (.string (Text.joinWith "," fragments)) options

/-- Options on the command line come before those of the file. An excluded fragment
has to be a text. -/
def override? (settings : Settings) (options : Options) : Option Options := do
  let options ← match settings.excluded with
    | some labels => (Label.texts? labels).map (exclude · options)
    | none => some options
  return match settings.report.given? with
    | some report => Keyed.put Options.reportPath (.string report) options
    | none => options

def runWith (settings : Settings) (options : Options) : Task m σ Nat := do
  let options ← Task.ofOption (override? settings options)
  match settings.mode with
  | .generate => generate settings options
  | .fixVisibility =>
    let report := (options.lookup Options.reportPath).getD (.string ({} : Config).reportPath)
    let _ ← VisibilityFix.run (Path.parse report.plain) settings.root
    return 0

def run (settings : Settings) : Task m σ Nat := do
  match settings.optionsFile.given? with
  | none => runWith settings []
  | some path =>
    match ← loadOptions path with
    | none => return 1
    | some options => runWith settings options

end PreviewShots.Command
