import Mathlib.Order.Defs.Unbundled
import PreviewShots.Proofs.Host

/-!
# Tasks that fail

What is known of a task that was stopped by a fault, again one law for each step: a
sequence fails in its first part, or in its second one after the first has ended. A step
on files that fails leaves directories behind, and a part of a file that was opened.
-/

namespace PreviewShots

def Fault.isFileSystem : Fault → Bool
  | .fileSystem => true
  | _ => false

def Fault.isAlreadyCreated : Fault → Bool
  | .alreadyCreated _ => true
  | _ => false

theorem Fault.eq_of_isFileSystem {fault : Fault} (h : fault.isFileSystem = true) :
    fault = .fileSystem := by
  cases fault with
  | fileSystem => rfl
  | _ => cases h

theorem Fault.exists_of_isAlreadyCreated {fault : Fault} (h : fault.isAlreadyCreated = true) :
    ∃ path, fault = .alreadyCreated path := by
  cases fault with
  | alreadyCreated path => exact ⟨path, rfl⟩
  | _ => cases h

namespace Task

variable {σ τ α β : Type} {state state' : σ} {world world' : World} {fault : Fault}

def Fails (task : Task (StateM World) σ α) (state : σ) (world : World) (fault : Fault)
    (state' : σ) (world' : World) : Prop :=
  @Eq ((Except Fault α × σ) × World) (task state world) ((.error fault, state'), world')

theorem ends_or_fails (task : Task (StateM World) σ α) (state : σ) (world : World) :
    (∃ a state' world', Ends task state world a state' world') ∨
      ∃ fault state' world', Fails task state world fault state' world' := by
  rcases hrun : task state world with ⟨⟨fault | a, after⟩, later⟩
  · exact .inr ⟨fault, after, later, hrun⟩
  · exact .inl ⟨a, after, later, hrun⟩

/-- A task ends unless it fails. -/
theorem exists_ends_iff {task : Task (StateM World) σ α} :
    (∃ a state' world', Ends task state world a state' world') ↔
      ∀ fault state' world', ¬ Fails task state world fault state' world' := by
  constructor
  · rintro ⟨a, after, later, hends⟩ fault state' world' hfails
    simp [Ends] at hends
    simp [Fails, hends] at hfails
  · intro h
    rcases ends_or_fails task state world with hends | ⟨fault, state', world', hfails⟩
    · exact hends
    · exact absurd hfails (h _ _ _)

/-- Whether the task is stopped, with what is asked for. -/
def failsWith (task : Task (StateM World) σ α) (state : σ) (world : World)
    (check : Fault → σ → World → Bool) : Bool :=
  match task state world with
  | ((.error fault, state'), world') => check fault state' world'
  | ((.ok _, _), _) => false

theorem exists_fails_of (task : Task (StateM World) σ α) (state : σ) (world : World)
    (check : Fault → σ → World → Bool) (h : failsWith task state world check = true) :
    ∃ fault state' world', Fails task state world fault state' world' ∧
      check fault state' world' = true := by
  rcases hrun : task state world with ⟨⟨fault | a, after⟩, later⟩
  · exact ⟨fault, after, later, hrun, by simpa [failsWith, hrun] using h⟩
  · simp [failsWith, hrun] at h

theorem exists_fails (task : Task (StateM World) σ α) (state : σ) (world : World)
    (h : failsWith task state world (fun fault _ _ => fault.isFileSystem) = true) :
    ∃ state' world', Fails task state world .fileSystem state' world' := by
  obtain ⟨fault, after, later, hfails, hfault⟩ := exists_fails_of task state world _ h
  exact ⟨after, later, Fault.eq_of_isFileSystem hfault ▸ hfails⟩

theorem fails_pure {c : α} : ¬ Fails (pure c) state world fault state' world' := by
  simp [Fails, run_pure]

theorem fails_bind {task : Task (StateM World) σ α} {next : α → Task (StateM World) σ β} :
    Fails (task >>= next) state world fault state' world' ↔
      Fails task state world fault state' world' ∨
      ∃ a middle between, Ends task state world a middle between ∧
        Fails (next a) middle between fault state' world' := by
  simp only [Fails, Ends, run_bind]
  rcases task state world with ⟨⟨_ | a, middle⟩, between⟩ <;> simp [and_assoc]

theorem fails_throw {cause : Fault} :
    Fails (throw cause : Task (StateM World) σ α) state world fault state' world' ↔
      fault = cause ∧ state' = state ∧ world' = world := by
  simp [Fails, run_throw, eq_comm, and_assoc]

theorem fails_get : ¬ Fails get state world fault state' world' := by
  simp [Fails, run_get]

theorem fails_modify {change : σ → σ} :
    ¬ Fails (modify change : Task (StateM World) σ PUnit) state world fault state' world' := by
  simp [Fails, run_modify]

theorem fails_ofOption {found : Option α} :
    Fails (ofOption found) state world fault state' world' ↔
      found = none ∧ fault = .illTyped ∧ state' = state ∧ world' = world := by
  cases found <;> simp [ofOption, fails_throw, fails_pure]

theorem fails_expect {condition : Bool} :
    Fails (expect condition) state world fault state' world' ↔
      condition = false ∧ fault = .illTyped ∧ state' = state ∧ world' = world := by
  cases condition <;> simp [expect, fails_throw, fails_pure]

theorem fails_ofHost {action : StateM World α} :
    ¬ Fails (ofHost action) state world fault state' world' := by
  simp [Fails, run_ofHost]

theorem fails_notifyAll {notices : List Notice} :
    ¬ Fails (notifyAll notices) state world fault state' world' := by
  simp [Fails, run_notifyAll]

theorem fails_notify {notice : Notice} :
    ¬ Fails (notify notice) state world fault state' world' := by
  simp [Fails, run_notify]

theorem fails_within {get : σ → τ} {set : σ → τ → σ} {task : Task (StateM World) τ α} :
    Fails (within get set task) state world fault state' world' ↔
      ∃ part, Fails task (get state) world fault part world' ∧ state' = set state part := by
  simp only [Fails, run_within]
  rcases task (get state) world with ⟨⟨c, part⟩, between⟩
  simp only [Prod.mk.injEq]
  constructor
  · rintro ⟨⟨rfl, rfl⟩, rfl⟩
    exact ⟨part, ⟨⟨rfl, rfl⟩, rfl⟩, rfl⟩
  · rintro ⟨_, ⟨⟨rfl, rfl⟩, rfl⟩, rfl⟩
    exact ⟨⟨rfl, rfl⟩, rfl⟩

-- ---------------------------------------------------------------------------
-- Files
-- ---------------------------------------------------------------------------

theorem fails_require {action : StateM World Bool} :
    Fails (require action) state world fault state' world' ↔
      fault = .fileSystem ∧ state' = state ∧ @Eq (Bool × World) (action world) (false, world') := by
  simp only [require, fails_bind, fails_ofHost, false_or, ends_ofHost]
  constructor
  · rintro ⟨done, middle, between, ⟨rfl, hrun⟩, h⟩
    cases done with
    | true => exact absurd h fails_pure
    | false =>
      obtain ⟨rfl, rfl, rfl⟩ := fails_throw.mp h
      exact ⟨rfl, rfl, hrun⟩
  · rintro ⟨rfl, rfl, hrun⟩
    exact ⟨false, state', world', ⟨rfl, hrun⟩, fails_throw.mpr ⟨rfl, rfl, rfl⟩⟩

theorem eq_of_pathFault? {path : Path} (h : pathFault? path = some fault) :
    fault = .notEncodable ∨ fault = .nullInPath := by
  simp only [pathFault?] at h
  split at h
  · exact .inl (Option.some.inj h).symm
  split at h
  · exact .inr (Option.some.inj h).symm
  · cases h

theorem fails_checkPath {path : Path} :
    Fails (checkPath path) state world fault state' world' ↔
      pathFault? path = some fault ∧ state' = state ∧ world' = world := by
  simp only [checkPath]
  split
  · next cause hcause => simp [fails_throw, hcause, eq_comm]
  · next hnone => simp [fails_pure, hnone]

/-- Directories that could not all be made. -/
theorem fails_makeDirectories {path : Path}
    (h : Fails (makeDirectories path) state world fault state' world') :
    state' = state ∧ (pathFault? path = some fault ∧ world' = world ∨
      pathFault? path = none ∧ fault = .fileSystem ∧ ∃ files,
        world.files.makeDirectories path = (files, false) ∧ world' = { world with files }) := by
  simp only [makeDirectories, fails_bind, fails_checkPath, fails_require] at h
  rcases h with ⟨hpath, rfl, rfl⟩ | ⟨_, _, _, hcheck, rfl, rfl, hrun⟩
  · exact ⟨rfl, .inl ⟨hpath, rfl⟩⟩
  · obtain ⟨hnone, rfl, rfl⟩ := ends_checkPath.mp hcheck
    exact ⟨rfl, .inr ⟨hnone, rfl, World.advance_eq.mp hrun⟩⟩

theorem fails_checkText {text : Text} :
    Fails (checkText text) state world fault state' world' ↔
      text.isEncodable = false ∧ fault = .notEncodable ∧ state' = state ∧ world' = world := by
  simp only [checkText]
  split
  · next h => simp [fails_pure, h]
  · next h => simp [fails_throw, Bool.eq_false_iff.mpr h]

theorem fails_openFile {path : Path}
    (h : Fails (openFile path) state world fault state' world') :
    state' = state ∧ world' = world ∧ (pathFault? path = some fault ∨
      pathFault? path = none ∧ fault = .fileSystem ∧ world.files.opened? path = none) := by
  simp only [openFile, fails_bind, fails_checkPath, fails_require] at h
  rcases h with ⟨hpath, rfl, rfl⟩ | ⟨_, _, _, hcheck, rfl, rfl, hrun⟩
  · exact ⟨rfl, rfl, .inl hpath⟩
  · obtain ⟨hnone, rfl, rfl⟩ := ends_checkPath.mp hcheck
    obtain ⟨hrefused, rfl⟩ := World.attempt_refused.mp hrun
    exact ⟨rfl, rfl, .inr ⟨hnone, rfl, hrefused⟩⟩

theorem fails_fill {path : Path} {text : Text} :
    Fails (fill path text) state world fault state' world' ↔ state' = state ∧
      (text.isEncodable = false ∧ fault = .notEncodable ∧ world' = world ∨
        text.isEncodable = true ∧ fault = .fileSystem ∧ ∃ files,
          world.files.fill path (text.utf8?.getD .empty) = (files, false) ∧
          world' = { world with files }) := by
  simp only [fill, fails_bind, fails_checkText, ends_checkText, fails_require, Host.fillFile,
    World.advance_eq]
  constructor
  · rintro (⟨htext, rfl, rfl, rfl⟩ | ⟨_, _, _, ⟨htext, rfl, rfl⟩, rfl, rfl, hfilled⟩)
    · exact ⟨rfl, .inl ⟨htext, rfl, rfl⟩⟩
    · exact ⟨rfl, .inr ⟨htext, rfl, hfilled⟩⟩
  · rintro ⟨rfl, ⟨htext, rfl, rfl⟩ | ⟨htext, rfl, hfilled⟩⟩
    · exact .inl ⟨htext, rfl, rfl, rfl⟩
    · exact .inr ⟨(), _, _, ⟨htext, rfl, rfl⟩, rfl, rfl, hfilled⟩

theorem fails_isThere {path : Path}
    (h : Fails (isThere path) state world fault state' world') :
    state' = state ∧ world' = world ∧ fault = .fileSystem ∧ world.files.isThere? path = none := by
  simp only [isThere] at h
  split at h
  · exact absurd h fails_pure
  simp only [fails_bind, fails_ofHost, false_or, ends_ofHost] at h
  obtain ⟨found, _, _, ⟨rfl, hhost⟩, h⟩ := h
  obtain ⟨rfl, rfl⟩ := Prod.mk.inj hhost
  split at h
  · exact absurd h fails_pure
  · next hnone =>
    obtain ⟨rfl, rfl, rfl⟩ := fails_throw.mp h
    exact ⟨rfl, rfl, rfl, hnone⟩

theorem fails_readChars {path : Path} :
    Fails (readChars path) state world fault state' world' ↔ state' = state ∧ world' = world ∧
      (pathFault? path = some fault ∨ pathFault? path = none ∧
        (fault = .fileSystem ∧ world.files.read? path = none ∨ fault = .notUtf8 ∧
          ∃ bytes, world.files.read? path = some bytes ∧ String.fromUTF8? bytes = none)) := by
  simp only [readChars, fails_bind, fails_checkPath, ends_checkPath, fails_ofHost, ends_ofHost,
    false_or]
  constructor
  · rintro (⟨hpath, rfl, rfl⟩ | ⟨_, _, _, ⟨hpath, rfl, rfl⟩, found, _, _, ⟨rfl, hhost⟩, hread⟩)
    · exact ⟨rfl, rfl, .inl hpath⟩
    obtain ⟨rfl, rfl⟩ := Prod.mk.inj hhost
    split at hread
    · next hnone =>
      obtain ⟨rfl, rfl, rfl⟩ := fails_throw.mp hread
      exact ⟨rfl, rfl, .inr ⟨hpath, .inl ⟨rfl, hnone⟩⟩⟩
    next bytes hbytes =>
    split at hread
    · next hnone =>
      obtain ⟨rfl, rfl, rfl⟩ := fails_throw.mp hread
      exact ⟨rfl, rfl, .inr ⟨hpath, .inr ⟨rfl, bytes, hbytes, hnone⟩⟩⟩
    · exact absurd hread fails_pure
  · rintro ⟨rfl, rfl, hpath | ⟨hpath, hcause⟩⟩
    · exact .inl ⟨hpath, rfl, rfl⟩
    refine .inr ⟨(), _, _, ⟨hpath, rfl, rfl⟩, _, _, _, ⟨rfl, rfl⟩, ?_⟩
    rcases hcause with ⟨rfl, hnone⟩ | ⟨rfl, bytes, hbytes, hnone⟩
    · simp [hnone, fails_throw]
    · simp [hbytes, hnone, fails_throw]

theorem fails_readText {path : Path}
    (h : Fails (readText path) state world fault state' world') :
    state' = state ∧ world' = world ∧ (pathFault? path = some fault ∨
      fault = .fileSystem ∧ world.files.read? path = none ∨ fault = .notUtf8) := by
  simp only [readText, fails_bind, fails_pure, and_false, exists_false, or_false,
    fails_readChars] at h
  obtain ⟨rfl, rfl, hpath | ⟨-, hmissing | ⟨hcause, -⟩⟩⟩ := h
  · exact ⟨rfl, rfl, .inl hpath⟩
  · exact ⟨rfl, rfl, .inr (.inl hmissing)⟩
  · exact ⟨rfl, rfl, .inr (.inr hcause)⟩

-- ---------------------------------------------------------------------------
-- Whatever becomes of a task
-- ---------------------------------------------------------------------------

/-- Whatever becomes of the task, its state goes on by the relation, and what stops it, if
anything does, is one of the faults. -/
def Stays (goes : σ → σ → Prop) (stops : Fault → Prop) (task : Task (StateM World) σ α) : Prop :=
  ∀ state world, goes state (task state world).1.2 ∧
    ∀ fault, (task state world).1.1 = .error fault → stops fault

/-- A part of the state stays as it is. -/
def Spared (part : σ → τ) (before after : σ) : Prop :=
  part after = part before

instance {part : σ → τ} : IsPreorder σ (Spared part) where
  refl _ := rfl
  trans _ _ _ h h' := Eq.trans h' h

/-- Not that a file was created before. -/
def IsNew (fault : Fault) : Prop :=
  ∀ path, fault ≠ .alreadyCreated path

section

variable {goes : σ → σ → Prop} {stops : Fault → Prop}

theorem Stays.ends {task : Task (StateM World) σ α} {a : α} (h : Stays goes stops task)
    (hends : Ends task state world a state' world') : goes state state' := by
  have hgoes := (h state world).1
  rwa [hends] at hgoes

theorem Stays.fails {task : Task (StateM World) σ α} (h : Stays goes stops task)
    (hfails : Fails task state world fault state' world') : goes state state' ∧ stops fault := by
  have hstays := h state world
  rw [hfails] at hstays
  exact ⟨hstays.1, hstays.2 fault rfl⟩

theorem Stays.mono {task : Task (StateM World) σ α} {goes' : σ → σ → Prop}
    {stops' : Fault → Prop} (h : Stays goes stops task)
    (hgoes : ∀ state state', goes state state' → goes' state state')
    (hstops : ∀ fault, stops fault → stops' fault) : Stays goes' stops' task :=
  fun state world => ⟨hgoes _ _ (h state world).1,
    fun fault hfault => hstops fault ((h state world).2 fault hfault)⟩

theorem stays_within {ρ : Type} {inner : ρ → ρ → Prop} {get : σ → ρ} {set : σ → ρ → σ}
    {task : Task (StateM World) ρ α} (h : Stays inner stops task)
    (hset : ∀ state part, inner (get state) part → goes state (set state part)) :
    Stays goes stops (within get set task) := by
  intro state world
  rw [run_within]
  exact ⟨hset state _ (h (get state) world).1, (h (get state) world).2⟩

theorem stays_modify {change : σ → σ} (h : ∀ state, goes state (change state)) :
    Stays goes stops (modify change : Task (StateM World) σ PUnit) :=
  fun state world => by simp [run_modify, h]

variable [IsPreorder σ goes]

theorem stays_pure {a : α} : Stays goes stops (pure a) :=
  fun state world => by simp [run_pure, Std.Refl.refl]

theorem stays_bind {task : Task (StateM World) σ α} {next : α → Task (StateM World) σ β}
    (h : Stays goes stops task) (hnext : ∀ a, Stays goes stops (next a)) :
    Stays goes stops (task >>= next) := by
  intro state world
  rcases ends_or_fails task state world with ⟨a, middle, between, hends⟩ |
    ⟨fault, middle, between, hfails⟩
  · have hrun : (task >>= next) state world = next a middle between := by
      rw [run_bind, hends]
    rw [hrun]
    exact ⟨IsTrans.trans _ _ _ (h.ends hends) (hnext a middle between).1,
      (hnext a middle between).2⟩
  · have hrun : (task >>= next) state world = ((.error fault, middle), between) := by
      rw [run_bind, hfails]
    rw [hrun]
    exact ⟨(h.fails hfails).1, by simpa using (h.fails hfails).2⟩

theorem stays_throw {cause : Fault} (h : stops cause) :
    Stays goes stops (throw cause : Task (StateM World) σ α) := by
  intro state world
  simpa [run_throw, Std.Refl.refl] using h

theorem stays_get : Stays goes stops get :=
  fun state world => by simp [run_get, Std.Refl.refl]

theorem stays_ofOption {found : Option α} (h : stops .illTyped) :
    Stays goes stops (ofOption found) := by
  cases found with
  | none => exact stays_throw h
  | some a => exact stays_pure

theorem stays_expect {condition : Bool} (h : stops .illTyped) :
    Stays goes stops (expect condition) := by
  cases condition with
  | false => exact stays_throw h
  | true => exact stays_pure

theorem stays_ofHost {action : StateM World α} : Stays goes stops (ofHost action) :=
  fun state world => by simp [run_ofHost, Std.Refl.refl]

theorem stays_notify {notice : Notice} : Stays goes stops (notify notice) := stays_ofHost

theorem stays_notifyAll {notices : List Notice} : Stays goes stops (notifyAll notices) :=
  fun state world => by simp [run_notifyAll, Std.Refl.refl]

theorem stays_checkPath {path : Path} : Stays goes IsNew (checkPath path) := by
  simp only [checkPath]
  split
  · next cause hcause =>
    refine stays_throw fun text => ?_
    rcases eq_of_pathFault? hcause with rfl | rfl <;> simp
  · exact stays_pure

theorem stays_require {action : StateM World Bool} : Stays goes IsNew (require action) := by
  refine stays_bind stays_ofHost fun done => ?_
  cases done with
  | false => exact stays_throw (by simp [IsNew])
  | true => exact stays_pure

theorem stays_makeDirectories {path : Path} : Stays goes IsNew (makeDirectories path) :=
  stays_bind stays_checkPath fun _ => stays_require

theorem stays_openFile {path : Path} : Stays goes IsNew (openFile path) :=
  stays_bind stays_checkPath fun _ => stays_require

theorem stays_checkText {text : Text} : Stays goes IsNew (checkText text) := by
  simp only [checkText]
  split
  · exact stays_pure
  · exact stays_throw (by simp [IsNew])

theorem stays_fill {path : Path} {text : Text} : Stays goes IsNew (fill path text) :=
  stays_bind stays_checkText fun _ => stays_require

theorem stays_writeText {path : Path} {text : Text} : Stays goes IsNew (writeText path text) :=
  stays_bind stays_openFile fun _ => stays_fill

theorem stays_isThere {path : Path} : Stays goes IsNew (isThere path) := by
  simp only [isThere]
  split
  · exact stays_pure
  · refine stays_bind stays_ofHost fun found => ?_
    split
    · exact stays_pure
    · exact stays_throw (by simp [IsNew])

theorem stays_readText {path : Path} : Stays goes IsNew (readText path) := by
  refine stays_bind ?_ fun _ => stays_pure
  refine stays_bind stays_checkPath fun _ => stays_bind stays_ofHost fun found => ?_
  split
  · exact stays_throw (by simp [IsNew])
  · split
    · exact stays_throw (by simp [IsNew])
    · exact stays_pure

end

end Task

end PreviewShots
