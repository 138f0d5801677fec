import PreviewShots.Host
import PreviewShots.Proofs.FileTree

/-!
# Tasks that end

What is known of a task that ended without a fault: one law for each step a task can
take, so that a run is taken apart by rewriting.
-/

namespace PreviewShots

namespace World

variable {world world' : World}

theorem attempt_eq {next : FileTree → Option FileTree} :
    @Eq (Bool × World) (attempt next world) (true, world') ↔
      ∃ files, next world.files = some files ∧ world' = { world with files } := by
  simp only [attempt]
  split
  · next files hfiles => simp [hfiles, eq_comm]
  · next hnone => simp [hnone]

theorem attempt_refused {next : FileTree → Option FileTree} :
    @Eq (Bool × World) (attempt next world) (false, world') ↔
      next world.files = none ∧ world' = world := by
  simp only [attempt]
  split
  · next files hfiles => simp [hfiles]
  · next hnone => simp [hnone, eq_comm]

theorem advance_eq {next : FileTree → FileTree × Bool} {done : Bool} :
    @Eq (Bool × World) (advance next world) (done, world') ↔
      ∃ files, next world.files = (files, done) ∧ world' = { world with files } := by
  rcases hnext : next world.files with ⟨files, made⟩
  simp only [advance, hnext, Prod.mk.injEq]
  constructor
  · rintro ⟨rfl, rfl⟩
    exact ⟨files, ⟨rfl, rfl⟩, rfl⟩
  · rintro ⟨_, ⟨rfl, rfl⟩, rfl⟩
    exact ⟨rfl, rfl⟩

end World

namespace Task

variable {σ τ α β : Type} {state state' : σ} {world world' : World} {a : α} {b : β}

def Ends (task : Task (StateM World) σ α) (state : σ) (world : World) (a : α) (state' : σ)
    (world' : World) : Prop :=
  @Eq ((Except Fault α × σ) × World) (task state world) ((.ok a, state'), world')

/-- Whether the task ends, with what is asked for. -/
def endsWith (task : Task (StateM World) σ α) (state : σ) (world : World)
    (check : α → σ → World → Bool) : Bool :=
  match task state world with
  | ((.ok a, state'), world') => check a state' world'
  | ((.error _, _), _) => false

theorem exists_ends_of (task : Task (StateM World) σ α) (state : σ) (world : World)
    (check : α → σ → World → Bool) (h : endsWith task state world check = true) :
    ∃ a state' world', Ends task state world a state' world' ∧ check a state' world' = true := by
  rcases hrun : task state world with ⟨⟨fault | a, after⟩, later⟩
  · simp [endsWith, hrun] at h
  · exact ⟨a, after, later, hrun, by simpa [endsWith, hrun] using h⟩

theorem exists_ends (task : Task (StateM World) σ α) (state : σ) (world : World)
    (h : (task state world).1.1.isOk = true) :
    ∃ a state' world', Ends task state world a state' world' := by
  rcases hrun : task state world with ⟨⟨_ | a, after⟩, later⟩
  · simp [hrun, Except.isOk, Except.toBool] at h
  · exact ⟨a, after, later, hrun⟩

/-- A task ends in one way only. -/
theorem Ends.unique {task : Task (StateM World) σ α} {c : α} {other : σ} {later : World}
    (h : Ends task state world a state' world') (h' : Ends task state world c other later) :
    c = a ∧ other = state' ∧ later = world' := by
  simp only [Ends] at h h'
  rw [h] at h'
  cases h'
  exact ⟨rfl, rfl, rfl⟩

theorem ends_pure {c : α} : Ends (pure c) state world a state' world' ↔
    a = c ∧ state' = state ∧ world' = world := by
  simp [Ends, run_pure, eq_comm, and_assoc]

theorem ends_bind {task : Task (StateM World) σ α} {next : α → Task (StateM World) σ β} :
    Ends (task >>= next) state world b state' world' ↔
      ∃ a middle between, Ends task state world a middle between ∧
        Ends (next a) middle between b state' world' := by
  simp only [Ends, run_bind]
  rcases task state world with ⟨⟨_ | a, middle⟩, between⟩ <;> simp [and_assoc]

theorem ends_throw {fault : Fault} :
    ¬ Ends (throw fault : Task (StateM World) σ α) state world a state' world' := by
  simp [Ends, run_throw]

theorem ends_get {found : σ} : Ends get state world found state' world' ↔
    found = state ∧ state' = state ∧ world' = world := by
  simp [Ends, run_get, eq_comm, and_assoc]

theorem ends_modify {change : σ → σ} {u : PUnit} :
    Ends (modify change) state world u state' world' ↔ state' = change state ∧ world' = world := by
  simp [Ends, run_modify, eq_comm]

theorem ends_ofOption {found : Option α} : Ends (ofOption found) state world a state' world' ↔
    found = some a ∧ state' = state ∧ world' = world := by
  cases found with
  | none => simp [ofOption, ends_throw]
  | some c => simp [ofOption, ends_pure, eq_comm]

theorem ends_expect {condition : Bool} {u : Unit} :
    Ends (expect condition) state world u state' world' ↔
      condition = true ∧ state' = state ∧ world' = world := by
  cases condition <;> simp [expect, ends_throw, ends_pure]

theorem ends_ofHost {action : StateM World α} : Ends (ofHost action) state world a state' world' ↔
    state' = state ∧ @Eq (α × World) (action world) (a, world') := by
  simp only [Ends, run_ofHost]
  rcases action world with ⟨c, between⟩
  simp [and_assoc, and_left_comm, eq_comm]

theorem ends_notifyAll {notices : List Notice} {u : Unit} :
    Ends (notifyAll notices) state world u state' world' ↔
      state' = state ∧ world' = { world with notices := world.notices ++ notices } := by
  simp [Ends, run_notifyAll, eq_comm]

theorem ends_notify {notice : Notice} {u : Unit} :
    Ends (notify notice) state world u state' world' ↔
      state' = state ∧ world' = { world with notices := world.notices ++ [notice] } := by
  simp [Ends, run_notify, eq_comm]

theorem ends_within {get : σ → τ} {set : σ → τ → σ} {task : Task (StateM World) τ α} :
    Ends (within get set task) state world a state' world' ↔
      ∃ part, Ends task (get state) world a part world' ∧ state' = set state part := by
  simp only [Ends, run_within]
  rcases task (get state) world with ⟨⟨c, part⟩, between⟩
  simp only [Prod.mk.injEq]
  constructor
  · rintro ⟨⟨rfl, rfl⟩, rfl⟩
    exact ⟨part, ⟨⟨rfl, rfl⟩, rfl⟩, rfl⟩
  · rintro ⟨_, ⟨⟨rfl, rfl⟩, rfl⟩, rfl⟩
    exact ⟨⟨rfl, rfl⟩, rfl⟩

-- ---------------------------------------------------------------------------
-- Files
-- ---------------------------------------------------------------------------

theorem ends_require {action : StateM World Bool} {u : Unit} :
    Ends (require action) state world u state' world' ↔
      state' = state ∧ @Eq (Bool × World) (action world) (true, world') := by
  simp only [require, ends_bind, ends_ofHost]
  constructor
  · rintro ⟨done, middle, between, ⟨rfl, hrun⟩, h⟩
    cases done with
    | false => exact absurd h ends_throw
    | true =>
      obtain ⟨-, rfl, rfl⟩ := ends_pure.mp h
      exact ⟨rfl, hrun⟩
  · rintro ⟨rfl, hrun⟩
    exact ⟨true, state', world', ⟨rfl, hrun⟩, ends_pure.mpr ⟨rfl, rfl, rfl⟩⟩

theorem ends_checkPath {path : Path} {u : Unit} :
    Ends (checkPath path) state world u state' world' ↔
      pathFault? path = none ∧ state' = state ∧ world' = world := by
  simp only [checkPath]
  split
  · next cause hcause => simp [ends_throw, hcause]
  · next hnone => simp [ends_pure, hnone]

theorem ends_makeDirectories {path : Path} {u : Unit} :
    Ends (makeDirectories path) state world u state' world' ↔
      pathFault? path = none ∧ state' = state ∧ ∃ files,
        world.files.makeDirectories path = (files, true) ∧ world' = { world with files } := by
  simp [makeDirectories, ends_bind, ends_checkPath, ends_require, Host.makeDirectories,
    World.advance_eq, and_assoc]

theorem ends_checkText {text : Text} {u : Unit} :
    Ends (checkText text) state world u state' world' ↔
      text.isEncodable = true ∧ state' = state ∧ world' = world := by
  simp only [checkText]
  split
  · next h => simp [ends_pure, h]
  · next h => simp [ends_throw, h]

theorem ends_openFile {path : Path} {u : Unit} :
    Ends (openFile path) state world u state' world' ↔
      pathFault? path = none ∧ state' = state ∧ ∃ files,
        world.files.opened? path = some files ∧ world' = { world with files } := by
  simp [openFile, ends_bind, ends_checkPath, ends_require, Host.openFile, World.attempt_eq,
    and_assoc]

theorem ends_fill {path : Path} {text : Text} {u : Unit} :
    Ends (fill path text) state world u state' world' ↔
      text.isEncodable = true ∧ state' = state ∧ ∃ files,
        world.files.fill path (text.utf8?.getD .empty) = (files, true) ∧
        world' = { world with files } := by
  simp [fill, ends_bind, ends_checkText, ends_require, Host.fillFile, World.advance_eq,
    and_assoc]

/-- A file that is opened and then filled, whatever happens to the state between. -/
theorem ends_write {path : Path} {text : Text} {u v : Unit} {next next' : σ} :
    (∃ middle between, Ends (openFile path) state world u middle between ∧
        Ends (fill path text) next between v next' world') ↔
      pathFault? path = none ∧ text.isEncodable = true ∧ next' = next ∧ ∃ files,
        world.files.write? path (text.utf8?.getD .empty) = some files ∧
        world' = { world with files } := by
  simp only [ends_openFile, ends_fill]
  constructor
  · rintro ⟨_, _, ⟨hpath, rfl, opened, hopened, rfl⟩, htext, rfl, files, hfiles, rfl⟩
    exact ⟨hpath, htext, rfl, files, by simp [FileTree.write?, hopened, hfiles], rfl⟩
  · rintro ⟨hpath, htext, rfl, files, hfiles, rfl⟩
    simp only [FileTree.write?] at hfiles
    split at hfiles
    case h_2 => cases hfiles
    next opened hopened =>
    split at hfiles
    · next filled hfilled =>
      cases hfiles
      exact ⟨_, _, ⟨hpath, rfl, opened, hopened, rfl⟩, htext, rfl, files, hfilled, rfl⟩
    · cases hfiles

theorem ends_writeText {path : Path} {text : Text} {u : Unit} :
    Ends (writeText path text) state world u state' world' ↔
      pathFault? path = none ∧ text.isEncodable = true ∧ state' = state ∧ ∃ files,
        world.files.write? path (text.utf8?.getD .empty) = some files ∧
        world' = { world with files } := by
  simp only [writeText, ends_bind]
  constructor
  · rintro ⟨_, middle, between, hopen, hfill⟩
    obtain ⟨-, rfl, -⟩ := ends_openFile.mp hopen
    exact ends_write.mp ⟨_, between, hopen, hfill⟩
  · intro h
    obtain ⟨middle, between, hopen, hfill⟩ := (ends_write (u := ()) (v := ())).mpr h
    obtain ⟨-, rfl, -⟩ := ends_openFile.mp hopen
    exact ⟨(), _, between, hopen, hfill⟩

theorem ends_isThere {path : Path} {there : Bool} (hpath : pathFault? path = none) :
    Ends (isThere path) state world there state' world' ↔
      world.files.isThere? path = some there ∧ state' = state ∧ world' = world := by
  simp only [isThere, hpath, Option.isSome_none, Bool.false_eq_true, ↓reduceIte, ends_bind,
    ends_ofHost]
  constructor
  · rintro ⟨found, _, _, ⟨rfl, hhost⟩, hfound⟩
    obtain ⟨rfl, rfl⟩ := Prod.mk.inj hhost
    split at hfound
    · next hthere =>
      obtain ⟨rfl, rfl, rfl⟩ := ends_pure.mp hfound
      exact ⟨hthere, rfl, rfl⟩
    · exact absurd hfound ends_throw
  · rintro ⟨hthere, rfl, rfl⟩
    exact ⟨some there, _, _, ⟨rfl, Prod.ext hthere rfl⟩, ends_pure.mpr ⟨rfl, rfl, rfl⟩⟩

theorem of_ends_isThere {path : Path} {there : Bool}
    (h : Ends (isThere path) state world there state' world') :
    state' = state ∧ world' = world ∧
      (there = true → pathFault? path = none ∧ world.files.isThere? path = some true) := by
  cases hpath : pathFault? path with
  | none =>
    obtain ⟨hthere, rfl, rfl⟩ := (ends_isThere hpath).mp h
    exact ⟨rfl, rfl, fun ht => ⟨rfl, ht ▸ hthere⟩⟩
  | some cause =>
    simp only [isThere, hpath, Option.isSome_some, ↓reduceIte, ends_pure] at h
    obtain ⟨rfl, rfl, rfl⟩ := h
    exact ⟨rfl, rfl, by simp⟩

theorem ends_readChars {path : Path} {chars : List Char} :
    Ends (readChars path) state world chars state' world' ↔ pathFault? path = none ∧
      (∃ bytes text, world.files.read? path = some bytes ∧ String.fromUTF8? bytes = some text ∧
        chars = Text.unifyNewlines text.toList) ∧ state' = state ∧ world' = world := by
  simp only [readChars, ends_bind, ends_checkPath, ends_ofHost]
  constructor
  · rintro ⟨_, _, _, ⟨hpath, rfl, rfl⟩, found, _, _, ⟨rfl, hhost⟩, hfound⟩
    obtain ⟨rfl, rfl⟩ := Prod.mk.inj hhost
    split at hfound
    · exact absurd hfound ends_throw
    next bytes hbytes =>
    split at hfound
    · exact absurd hfound ends_throw
    next text htext =>
    obtain ⟨rfl, rfl, rfl⟩ := ends_pure.mp hfound
    exact ⟨hpath, ⟨bytes, text, hbytes, htext, rfl⟩, rfl, rfl⟩
  · rintro ⟨hpath, ⟨bytes, text, hbytes, htext, rfl⟩, rfl, rfl⟩
    refine ⟨(), _, _, ⟨hpath, rfl, rfl⟩, some bytes, _, _, ⟨rfl, Prod.ext hbytes rfl⟩, ?_⟩
    simp only [htext]
    exact ends_pure.mpr ⟨rfl, rfl, rfl⟩

end Task

end PreviewShots
