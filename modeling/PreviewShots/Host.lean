import PreviewShots.FileTree
import PreviewShots.Notice
import PreviewShots.Text.Lines
import PreviewShots.Text.Utf8

/-!
# Hosts

What the program needs from where it runs: files, a place for notices, and a
place for printed lines. `World` is a host that is a value. A task keeps a state
of its own, which like the host is left as it was when a fault stops the task.
-/

namespace PreviewShots

class Host (m : Type → Type) where
  /-- Whether something is at the path; `none` if that cannot be told. -/
  isThere? : Path → m (Option Bool)
  read? : Path → m (Option ByteArray)
  /-- Makes a file with nothing in it, or empties the one that is there. -/
  openFile : Path → m Bool
  /-- Writes to a file that was opened. What was written stays if this fails. -/
  fillFile : Path → ByteArray → m Bool
  makeDirectories : Path → m Bool
  remove : Path → m Bool
  notify : Notice → m Unit
  print : Text → m Unit

structure World where
  files : FileTree
  notices : List Notice
  printed : List Text

namespace World

def ofFiles (files : FileTree) : World := ⟨files, [], []⟩

/-- An operation that fails leaves the files as they are. -/
def attempt (next : FileTree → Option FileTree) : StateM World Bool := fun world =>
  match next world.files with
  | some files => (true, { world with files })
  | none => (false, world)

/-- An operation that leaves what it has done if it fails. -/
def advance (next : FileTree → FileTree × Bool) : StateM World Bool := fun world =>
  let (files, done) := next world.files
  (done, { world with files })

end World

instance : Host (StateM World) where
  isThere? path := fun world => (world.files.isThere? path, world)
  read? path := fun world => (world.files.read? path, world)
  openFile path := World.attempt (·.opened? path)
  fillFile path bytes := World.advance (·.fill path bytes)
  makeDirectories path := World.advance (·.makeDirectories path)
  remove path := World.attempt (·.remove? path)
  notify notice := fun world => ((), { world with notices := world.notices ++ [notice] })
  print line := fun world => ((), { world with printed := world.printed ++ [line] })

/-- A task on a host with a state `σ`. -/
abbrev Task (m : Type → Type) (σ : Type) := ExceptT Fault (StateT σ m)

namespace Task

variable {m : Type → Type} [Monad m] [Host m] {σ τ α : Type}

def ofHost (action : m α) : Task m σ α :=
  fun state => do return (.ok (← action), state)

def ofExcept (result : Except Fault α) : Task m σ α :=
  fun state => pure (result, state)

/-- What there is; where there is nothing, a value of another kind was met. -/
def ofOption (found : Option α) : Task m σ α :=
  match found with
  | some a => return a
  | none => throw .illTyped

/-- Stops unless the condition holds. -/
def expect (condition : Bool) : Task m σ Unit :=
  if condition then return () else throw .illTyped

/-- An action of the host that says whether it succeeded. -/
def require (action : m Bool) : Task m σ Unit := do
  if ← ofHost action then return () else throw .fileSystem

def notify (notice : Notice) : Task m σ Unit :=
  ofHost (Host.notify notice)

def notifyAll : List Notice → Task m σ Unit
  | [] => pure ()
  | notice :: notices => do
    notify notice
    notifyAll notices

def print (line : Text) : Task m σ Unit :=
  ofHost (Host.print line)

/-- A task on a part of the state. -/
def within (get : σ → τ) (set : σ → τ → σ) (task : Task m τ α) : Task m σ α :=
  fun state => do
    let (result, part) ← task (get state)
    return (result, set state part)

/-- Why no file can have the path. -/
def pathFault? (path : Path) : Option Fault :=
  let text := path.toText
  if !text.isNameable then some .notEncodable
  else if .char '\x00' ∈ text then some .nullInPath
  else none

/-- Stops where no file can have the path. -/
def checkPath (path : Path) : Task m σ Unit :=
  match pathFault? path with
  | some fault => throw fault
  | none => return ()

/-- Nothing is at a path that no file can have. -/
def isThere (path : Path) : Task m σ Bool := do
  if (pathFault? path).isSome then return false
  match ← ofHost (Host.isThere? path) with
  | some there => return there
  | none => throw .fileSystem

/-- The characters of a file, its line ends unified. -/
def readChars (path : Path) : Task m σ (List Char) := do
  checkPath path
  match ← ofHost (Host.read? path) with
  | none => throw .fileSystem
  | some bytes =>
    match String.fromUTF8? bytes with
    | none => throw .notUtf8
    | some text => return Text.unifyNewlines text.toList

def readText (path : Path) : Task m σ Text := do
  return Text.ofChars (← readChars path)

def openFile (path : Path) : Task m σ Unit := do
  checkPath path
  require (Host.openFile path)

/-- A directory and those above it, where they are not there. -/
def makeDirectories (path : Path) : Task m σ Unit := do
  checkPath path
  require (Host.makeDirectories path)

/-- Stops at a text that has no form in UTF-8. -/
def checkText (text : Text) : Task m σ Unit :=
  if text.isEncodable then return () else throw .notEncodable

/-- Writes the text to a file that was opened. -/
def fill (path : Path) (text : Text) : Task m σ Unit := do
  checkText text
  require (Host.fillFile path (text.utf8?.getD .empty))

def writeText (path : Path) (text : Text) : Task m σ Unit := do
  openFile path
  fill path text

/-- Puts a file into a directory that is made if it is not there. -/
def putFile (path : Path) (bytes : ByteArray) : Task m σ Unit := do
  makeDirectories path.parent
  openFile path
  require (Host.fillFile path bytes)

/-! On a world a task is a function of its state and the world. -/

section

variable {β : Type} (state : σ) (world : World)

theorem run_pure (a : α) :
    (pure a : Task (StateM World) σ α) state world = ((.ok a, state), world) := rfl

theorem run_bind (task : Task (StateM World) σ α) (next : α → Task (StateM World) σ β) :
    (task >>= next) state world = match task state world with
      | ((.ok a, state), world) => next a state world
      | ((.error fault, state), world) => ((.error fault, state), world) := by
  simp only [bind, ExceptT.bind, ExceptT.mk, StateT.bind, ExceptT.bindCont]
  rcases task state world with ⟨⟨_ | _, _⟩, _⟩ <;> rfl

theorem run_throw (fault : Fault) :
    (throw fault : Task (StateM World) σ α) state world = ((.error fault, state), world) := rfl

theorem run_get :
    (get : Task (StateM World) σ σ) state world = ((.ok state, state), world) := rfl

theorem run_modify (change : σ → σ) :
    (modify change : Task (StateM World) σ PUnit) state world = ((.ok ⟨⟩, change state), world) :=
  rfl

theorem run_ofHost (action : StateM World α) :
    (ofHost action : Task (StateM World) σ α) state world =
      ((.ok (action world).1, state), (action world).2) := rfl

theorem run_ofExcept (result : Except Fault α) :
    (ofExcept result : Task (StateM World) σ α) state world = ((result, state), world) := rfl

theorem run_notify (notice : Notice) :
    (notify notice : Task (StateM World) σ Unit) state world =
      ((.ok (), state), { world with notices := world.notices ++ [notice] }) := rfl

theorem run_notifyAll (notices : List Notice) :
    (notifyAll notices : Task (StateM World) σ Unit) state world =
      ((.ok (), state), { world with notices := world.notices ++ notices }) := by
  induction notices generalizing world with
  | nil => simp [notifyAll, run_pure]
  | cons notice rest ih => simp [notifyAll, run_bind, run_notify, ih]

theorem run_print (line : Text) :
    (print line : Task (StateM World) σ Unit) state world =
      ((.ok (), state), { world with printed := world.printed ++ [line] }) := rfl

theorem run_within (get : σ → τ) (set : σ → τ → σ) (task : Task (StateM World) τ α) :
    within get set task state world =
      (((task (get state) world).1.1, set state (task (get state) world).1.2),
        (task (get state) world).2) := rfl

end

end Task

end PreviewShots
