import PreviewShots.Keyed
import PreviewShots.Label
import PreviewShots.Text.Alphanumeric
import PreviewShots.Text.Lead
import PreviewShots.VisibilityReport

/-!
# The visibility fix

A private function of the report becomes internal: where `private` is followed by
blanks, `fun`, blanks, its name and the end of a word, the keyword is replaced.
The report is removed once all its files have been visited.
-/

namespace PreviewShots.VisibilityFix

open PreviewShots.Text

-- ---------------------------------------------------------------------------
-- The text of a file
-- ---------------------------------------------------------------------------

/-- Between two characters, of which one is part of a word and the other is not.
The ends of the text are not part of a word. -/
def isBoundary (before after : Option CodePoint) : Bool :=
  before.any isWord != after.any isWord

/-- Whether the text starts with the name and a word ends behind it. -/
def startsWithName (name text : Text) : Bool :=
  match dropLead? name text with
  | some rest => isBoundary name.getLast? rest.head?
  | none => false

/-- The length of blanks, at least one, and the name behind them. A name may start
with a blank itself, so the longest run of blanks is tried first. -/
def nameAfterBlanks? (name : Text) : Text → Option Nat
  | [] => none
  | c :: cs =>
    if !isBlank c then none
    else match nameAfterBlanks? name cs with
      | some n => some (n + 1)
      | none => if startsWithName name cs then some (name.length + 1) else none

/-- The length of what makes a declaration of the function out of the keyword in
front of the text. -/
def declaration? (name text : Text) : Option Nat :=
  let blanks := text.takeWhile isBlank
  if blanks.isEmpty then none
  else match dropLead? (ofString "fun") (text.dropWhile isBlank) with
    | some rest => (nameAfterBlanks? name rest).map (blanks.length + 3 + ·)
    | none => none

def keyword : Text := "private"

def replacement : Text := "internal"

/-- The length of a declaration behind the keyword at the start of the text. -/
def occurrence? (name text : Text) : Option Nat :=
  (dropLead? keyword text).bind (declaration? name)

/-- The text with every declaration of the function made internal, and how many
there were. Declarations are found from the left and do not overlap: what is left
of one is dropped, as the keyword, or copied. -/
def substitute (name : Text) (drop copy : Nat) : Text → Text × Nat
  | [] => ([], 0)
  | c :: cs =>
    match drop, copy with
    | drop + 1, copy => substitute name drop copy cs
    | 0, copy + 1 =>
      let (fixed, count) := substitute name 0 copy cs
      (c :: fixed, count)
    | 0, 0 =>
      match occurrence? name (c :: cs) with
      | some length =>
        let (fixed, count) := substitute name (keyword.length - 1) length cs
        (replacement ++ fixed, count + 1)
      | none =>
        let (fixed, count) := substitute name 0 0 cs
        (c :: fixed, count)

/-- The text after all names, one after the other, and how many of them occurred. -/
def fixText : List Text → Text → Text × Nat
  | [], text => (text, 0)
  | name :: names, text =>
    let (fixed, count) := substitute name 0 0 text
    let (fixed, later) := fixText names fixed
    (fixed, if count = 0 then later else later + 1)

-- ---------------------------------------------------------------------------
-- The report and its files
-- ---------------------------------------------------------------------------

/-- The names of the records by path, paths and names in the order they come;
`none` for a record that is malformed. -/
def group : List Text → List (Text × List Text) × List Notice
  | records => records.foldl addRecord ([], [])
where
  addRecord : List (Text × List Text) × List Notice → Text →
      List (Text × List Text) × List Notice
    | (groups, notices), record =>
      match Record.ofLine? record with
      | none => (groups, notices ++ [.recordMalformed record])
      | some ⟨path, name⟩ =>
        (Keyed.put path ((groups.lookup path).getD [] ++ [name]) groups, notices)

variable {m : Type → Type} [Monad m] [Host m] {σ : Type}

def fixFile (path : Path) (names : List Text) : Task m σ Nat := do
  let content ← Task.readText path
  let (fixed, count) := fixText names content
  if count = 0 then return 0
  Task.writeText path fixed
  Task.print ("Fixed visibility in: " ++ path.name)
  return count

/-- A path of the report, within the base directory if there is one. -/
def sourcePath (base : Option Path) (path : Text) : Path :=
  match base with
  | some base => base.join (Path.parse path)
  | none => Path.parse path

def fixFiles (base : Option Path) : List (Text × List Text) → Task m σ Nat
  | [] => return 0
  | (path, names) :: rest => do
    let path := sourcePath base path
    if ← Task.isThere path then
      let count ← fixFile path names
      return count + (← fixFiles base rest)
    else
      Task.notify (.sourceMissing path.toText)
      fixFiles base rest

def nothingFound : Task m σ Nat := do
  Task.print "No private previews detected."
  return 0

/-- The base directory that a label names; null names none. -/
def base? : Label → Option (Option Path)
  | .null => some none
  | .string path => some (some (Path.parse path))
  | _ => none

/-- Applies the report and removes it; the number of functions made internal. The
root only counts where there are records. -/
def run (report : Path) (root : Label) : Task m σ Nat := do
  if !(← Task.isThere report) then nothingFound
  else
    let records ← ReportWriter.readReport report
    if records.isEmpty then
      Task.require (Host.remove report)
      nothingFound
    else
      let base ← Task.ofOption (base? root)
      let (groups, notices) := group records.eraseDups
      Task.notifyAll notices
      let total ← fixFiles base groups
      Task.require (Host.remove report)
      Task.print ("Fixed " ++ Text.ofNat total ++ " private @Preview functions.")
      return total

end PreviewShots.VisibilityFix
