import PreviewShots.Host
import PreviewShots.Json.Indented
import PreviewShots.Label

/-!
# Outputs

The files generated in one run, under one directory. Each is created once and
keeps the source files it depends on; the manifest lists them by path.
-/

namespace PreviewShots

/-- A generated file. Unless it is aggregating it only depends on its sources. That
mark and the sources are kept as they are given. -/
structure Output where
  path : Path
  aggregating : Json
  sources : List Label

/-- The outputs so far, in the order they were created. -/
structure Outputs where
  directory : Path
  created : List Output

namespace Outputs

def ofDirectory (directory : Path) : Outputs := ⟨directory, []⟩

/-- A package is a directory for each of its segments. -/
def packageDirectory (outputs : Outputs) (package : Text) : Path :=
  if package.isEmpty then outputs.directory
  else ((Text.splitOn (.char '.') package).map Path.parse).foldl Path.join outputs.directory

def pathFor (outputs : Outputs) (package file extension : Text) : Path :=
  (outputs.packageDirectory package).join (Path.parse (file ++ "." ++ extension))

def has (outputs : Outputs) (path : Path) : Bool :=
  outputs.created.any fun o => o.path.toText = path.toText

def add (outputs : Outputs) (output : Output) : Outputs :=
  { outputs with created := outputs.created ++ [output] }

variable {m : Type → Type} [Monad m] [Host m]

/-- Writes a file that was not created before. It counts as created once it is
open, even if its content cannot be written. -/
def create (output : Output) (content : Text) : Task m Outputs Unit := do
  if (← get).has output.path then throw (.alreadyCreated output.path.toText)
  Task.makeDirectories output.path.parent
  Task.openFile output.path
  modify (·.add output)
  Task.fill output.path content

def manifestEntry (output : Output) : Member :=
  ⟨output.path.toText, .object [⟨"aggregating", output.aggregating⟩,
    ⟨"sources", .array output.sources⟩]⟩

/-- A member in front of the first one with a greater key. -/
def insertByKey (entry : Member) : List Member → List Member
  | [] => [entry]
  | other :: rest =>
    if entry.key < other.key then entry :: other :: rest else other :: insertByKey entry rest

/-- The outputs by path, in ascending order. -/
def manifest (outputs : Outputs) : Json :=
  .object ((outputs.created.map manifestEntry).foldr insertByKey [])

def writeManifest (path : Path) : Task m Outputs Path := do
  let outputs ← get
  Task.makeDirectories path.parent
  Task.writeText path (outputs.manifest.indented 0)
  Task.notify (.manifestWritten outputs.created.length path.toText)
  return path

end Outputs

end PreviewShots
