import PreviewShots.Declaration
import PreviewShots.FileName
import PreviewShots.Output
import PreviewShots.TestFile

/-!
# Units

The tests of a source file become one unit, named after the file. A unit is
written at most once in a run; a second one of the same name is passed over.
-/

namespace PreviewShots

structure UnitKey where
  package : Label
  file : Text

def UnitKey.qualifiedName (key : UnitKey) : Text :=
  qualify key.package key.file

structure UnitWriter where
  suffix : Text
  outputs : Outputs
  /-- The names of the units written so far. -/
  written : List Text

namespace UnitWriter

def make (directory : Path) (suffix : Text) : UnitWriter :=
  ⟨suffix, .ofDirectory directory, []⟩

/-- The package is that of the first test. -/
def keyFor (writer : UnitWriter) (source : Text) (first : Fragment) : UnitKey :=
  ⟨first.package, FileName.base (FileName.ofPath source) ++ writer.suffix⟩

/-- A notice for each test that has the name and the signature of an earlier one. -/
def clashes (unit : Text) : List (Key × Key) → List Fragment → List Notice
  | _, [] => []
  | seen, f :: fs =>
    let here := (f.functionName.key, f.signature.key)
    (if here ∈ seen then [.unitTwice unit f.functionName.plain] else []) ++
      clashes unit (here :: seen) fs

variable {m : Type → Type} [Monad m] [Host m]

def onOutputs {α : Type} (task : Task m Outputs α) : Task m UnitWriter α :=
  Task.within UnitWriter.outputs (fun writer outputs => { writer with outputs }) task

/-- Writes the unit of a source file; none without tests, or if there is one of
that name. The path of a source file has to be a text. -/
def write (source : Label) : List Fragment → Task m UnitWriter (Option UnitKey)
  | [] => return none
  | first :: rest => do
    let some file := source.text? | throw .illTyped
    let writer ← get
    let key := writer.keyFor file first
    if key.qualifiedName ∈ writer.written then return none
    let fragments := first :: rest
    Task.notifyAll (clashes key.qualifiedName [] (fragments.takeWhile (·.isNamed)))
    Task.expect (fragments.all (·.isNamed) && TestFile.isWritable fragments)
    let some package := packageName? key.package | throw .illTyped
    let path := writer.outputs.pathFor package key.file "kt"
    onOutputs (Outputs.create ⟨path, .bool false, [source]⟩ (TestFile.render package fragments))
    modify fun writer => { writer with written := writer.written ++ [key.qualifiedName] }
    Task.notify (.unitWritten key.qualifiedName fragments.length)
    return some key

end UnitWriter

end PreviewShots
