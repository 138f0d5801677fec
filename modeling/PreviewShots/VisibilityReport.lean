import PreviewShots.Host

/-!
# The visibility report

Private functions with a marker cannot be called from a test. They are listed in
a report, one record a line: the path, a bar and the name. New records are added
behind those that are there, and each record stands once.
-/

namespace PreviewShots

structure Record where
  path : Text
  name : Text
  deriving DecidableEq, Repr

namespace Record

def separator : CodePoint := '|'

def line (record : Record) : Text :=
  record.path ++ separator :: record.name

/-- The path and the name of a line, which the last bar separates. -/
def ofLine? (line : Text) : Option Record :=
  match Text.cutLast? separator line with
  | some (path, name) => if path.isEmpty || name.isEmpty then none else some ⟨path, name⟩
  | none => none

end Record

/-- A private function with a marker, as the dump names it. -/
structure Violation where
  path : Label
  name : Label

def Violation.record (violation : Violation) : Record :=
  ⟨violation.path.plain, violation.name.plain⟩

namespace VisibilityReport

/-- The records of a report: its lines that are not blank. -/
def records (text : Text) : List Text :=
  Text.trimmedLines text

def merge (old new : List Text) : List Text :=
  (old ++ new).eraseDups

def render (records : List Text) : Text :=
  Text.joinWith "\n" records ++ "\n"

end VisibilityReport

/-- Violations that were recorded and not yet written to the report. -/
structure ReportWriter where
  path : Path
  pending : List Violation

namespace ReportWriter

def ofPath (path : Text) : ReportWriter := ⟨Path.parse path, []⟩

variable {m : Type → Type} [Monad m] [Host m]

/-- The records of a report; none if there is no report. -/
def readReport {σ : Type} (path : Path) : Task m σ (List Text) := do
  if ← Task.isThere path then
    return VisibilityReport.records (← Task.readText path)
  else return []

def record (violation : Violation) : Task m ReportWriter Unit := do
  modify fun writer => { writer with pending := writer.pending ++ [violation] }
  Task.notify (.privatePreview violation.name.plain violation.path.plain)

/-- Adds what is pending to the report. Nothing is pending afterwards, unless
the report could not be written. -/
def flush : Task m ReportWriter (Option Path) := do
  let writer ← get
  if writer.pending.isEmpty then return none
  let old := (← readReport writer.path).eraseDups
  let all := VisibilityReport.merge old (writer.pending.map (·.record.line))
  Task.makeDirectories writer.path.parent
  Task.writeText writer.path (VisibilityReport.render all)
  Task.notify (.reportWritten writer.path.toText (all.length - old.length) all.length)
  modify fun writer => { writer with pending := [] }
  return some writer.path

end ReportWriter

end PreviewShots
