import PreviewShots.Command

/-!
# The command line

The program on the file system. Printed lines go to the standard output and
notices to the standard error; a fault ends the program with status 1.
-/

namespace PreviewShots

/-- Whether the action came to its end. -/
def succeeds (action : IO Unit) : IO Bool := do
  try
    action
    return true
  catch _ => return false

/-- A text as it is shown; units that are no characters are left out. -/
def shownText (text : Text) : String :=
  String.ofList (text.filterMap CodePoint.char?)

def filePath (path : Path) : String :=
  shownText path.toText

instance : Host IO where
  isThere? path := do
    try
      let _ ← IO.FS.Handle.mk (filePath path) .read
      return some true
    catch
      | .noFileOrDirectory .. | .inappropriateType .. => return some false
      | _ => return none
  read? path := do
    try
      return some (← IO.FS.readBinFile (filePath path))
    catch _ => return none
  openFile path := succeeds (IO.FS.writeBinFile (filePath path) .empty)
  fillFile path bytes := succeeds (IO.FS.writeBinFile (filePath path) bytes)
  makeDirectories path := succeeds (IO.FS.createDirAll (filePath path))
  remove path := succeeds (IO.FS.removeFile (filePath path))
  notify notice := IO.eprintln (shownText notice.line)
  print line := IO.println (shownText line)

def usage : String :=
  "usage: preview-shots [--mode generate|fix-visibility] [-s DUMP] [-o DIRECTORY] [--report FILE] " ++
    "[-e FRAGMENT]... [--options-json FILE] [--manifest FILE] [--root DIRECTORY] [--debug]"

end PreviewShots

open PreviewShots in
def main (words : List String) : IO UInt32 := do
  match Settings.parse (words.map Text.ofString) with
  | .help =>
    IO.println usage
    return 0
  | .invalid =>
    IO.eprintln usage
    return 2
  | .run settings =>
    let task : Task IO Unit Nat := Command.run settings
    match (← task ()).1 with
    | .ok status => return UInt32.ofNat status
    | .error fault =>
      IO.eprintln (shownText fault.message)
      return 1
