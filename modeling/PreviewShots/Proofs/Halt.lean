import PreviewShots.Proofs.Emission
import PreviewShots.Proofs.Placement
import PreviewShots.Proofs.Replay
import PreviewShots.Proofs.VisibilityReport

/-!
# Rounds that stop

Where a round stopped that failed for the sake of the files: at a unit that could not be
written, with all files before it scanned, or at the report, with all of them scanned. What
it has come to by then is kept. It stopped since no file comes to the path, or since the
medium did not take the text of the file, which it would not take another time either.
-/

open PreviewShots.Task

namespace PreviewShots

variable {world world' : World} {fault : Fault}

/-- The writing of a file breaks off only if the medium does not take the text. -/
theorem FileTree.Broke.not_takes {path : Path} {content : Text} {tree tree' : FileTree}
    (h : tree.Broke path content .fileSystem tree') :
    ¬ tree.Takes path (content.utf8?.getD .empty) := by
  obtain ⟨part, location, hplaced, ⟨-, hfault⟩ | ⟨-, -, hbreaks⟩⟩ := h
  · cases hfault
  · intro htakes
    rw [hplaced.location_eq, htakes] at hbreaks
    cases hbreaks

theorem FileTree.Broke.eq_or {path : Path} {content : Text} {tree tree' : FileTree}
    (h : tree.Broke path content fault tree') :
    fault = .fileSystem ∨ content.isEncodable = false :=
  let ⟨_, _, _, hcause⟩ := h
  hcause.symm.imp (·.2.1) (·.1)

theorem FileTree.Broke.isOpen {path : Path} {content : Text} {tree tree' : FileTree}
    (h : tree.Broke path content fault tree') : tree.IsOpen path :=
  let ⟨_, _, hplaced, _⟩ := h
  hplaced.isOpen

namespace UnitWriter

variable {writer writer' : UnitWriter} {source : Label} {fragments : List Fragment}

/-- A unit that is asked for and written has its text taken. -/
theorem Asks.of_ends_write {key : UnitKey} {written : Option UnitKey}
    (h : writer.Asks source fragments key)
    (hends : Ends (write source fragments) writer world written writer' world') :
    written = some key ∧ world.files.Takes (Plan.unitPath writer.outputs.directory key)
      ((TestFile.render ((packageName? key.package).getD []) fragments).utf8?.getD .empty) := by
  obtain ⟨⟨first, file, hfirst, hfile, rfl⟩, hfree⟩ := h
  cases fragments with
  | nil => cases hfirst
  | cons head rest =>
    obtain rfl : head = first := by simpa using hfirst
    obtain ⟨found, hfound, hcases⟩ := ends_write_cons_iff.mp hends
    obtain rfl := Option.some.inj (hfile.symm.trans hfound)
    rcases hcases with ⟨htaken, -⟩ | ⟨package, hadmits, rfl, -, files, hfiles, -⟩
    · exact absurd htaken hfree
    · rw [pathFor_eq hadmits.package_eq] at hfiles
      have hpackage : Option.getD _ [] = package := congrArg (Option.getD · []) hadmits.package_eq
      exact ⟨rfl, hpackage ▸ (FileTree.isPut_of_place? hfiles).taken⟩

/-- A unit that could not be written, and is written on another tree of the medium: something
was in its way. -/
theorem key_of_fails_write {after : UnitWriter} {later later' : World}
    {written : Option UnitKey}
    (h : Fails (write source fragments) writer world .fileSystem writer' world')
    (hends : Ends (write source fragments) writer later written after later')
    (hmedium : later.files.toMedium = world.files.toMedium) :
    writer' = writer ∧ ∃ key, written = some key ∧
      world.files.Tried (Plan.unitPath writer.outputs.directory key) world'.files := by
  have hmissed := fails_write h
  generalize hfault : Fault.fileSystem = fault at hmissed
  generalize world'.files = files at hmissed
  cases hmissed with
  | illTyped => cases hfault
  | taken => cases hfault
  | barred hasks _ _ htried => exact ⟨rfl, _, (hasks.of_ends_write hends).1, htried⟩
  | broken hasks _ _ hbroke =>
    subst hfault
    exact absurd ((hasks.of_ends_write hends).2.congr hmedium.symm) hbroke.not_takes

end UnitWriter

namespace ReportWriter

variable {writer writer' : ReportWriter}

theorem eq_of_ends_readReport {σ : Type} {state state' : σ} {path : Path} {records : List Text}
    (h : Ends (readReport path) state world records state' world') :
    state' = state ∧ world' = world := by
  obtain ⟨there, _, _, hthere, h⟩ := ends_bind.mp h
  obtain ⟨rfl, rfl, hpath⟩ := of_ends_isThere hthere
  cases there with
  | false => exact (ends_pure.mp h).2
  | true =>
    simp only [↓reduceIte, readText, ends_bind, ends_pure, ends_readChars] at h
    obtain ⟨_, _, _, ⟨_, _, _, ⟨-, -, rfl, rfl⟩, -, rfl, rfl⟩, -, rfl, rfl⟩ := h
    exact ⟨rfl, rfl⟩

/-- Where a report that is there cannot be read, it is no text, or no file can be put in its
place. -/
theorem fails_readReport {σ : Type} {state state' : σ} {path : Path}
    (h : Fails (readReport path) state world fault state' world') :
    state' = state ∧ world' = world ∧ (fault = .notUtf8 ∨
      fault = .fileSystem ∧
        ¬ (path.IsFit world.files.working ∧ world.files.IsOpen path)) := by
  rcases fails_bind.mp h with hthere | ⟨there, _, _, hthere, h⟩
  · obtain ⟨rfl, rfl, rfl, hnone⟩ := fails_isThere hthere
    exact ⟨rfl, rfl, .inr ⟨rfl, fun ⟨hfit, _⟩ => FileTree.isThere?_ne_none hfit hnone⟩⟩
  obtain ⟨rfl, rfl, hpath⟩ := of_ends_isThere hthere
  cases there with
  | false => exact absurd h fails_pure
  | true =>
    simp only [↓reduceIte, fails_bind, fails_pure, and_false, exists_false, or_false] at h
    obtain ⟨rfl, rfl, hcause | ⟨rfl, hnone⟩ | rfl⟩ := fails_readText h
    · simp [(hpath rfl).1] at hcause
    · exact ⟨rfl, rfl, .inr ⟨rfl, fun ⟨hfit, hopen⟩ =>
        FileTree.read?_ne_none hfit hopen (hpath rfl).2 hnone⟩⟩
    · exact ⟨rfl, rfl, .inl rfl⟩

/-- Why a report could not be written, and what that leaves behind. -/
inductive Refused (path : Path) (text : Text) (tree : FileTree) : Fault → FileTree → Prop
  | unreadable : Refused path text tree .notUtf8 tree
  | parentUnnamed {fault : Fault} (h : pathFault? path.parent = some fault) :
      Refused path text tree fault tree
  | unnamed {fault : Fault} {tree' : FileTree} (h : pathFault? path = some fault)
      (htried : tree.Tried path tree') : Refused path text tree fault tree'
  | barred {tree' : FileTree} (h : ¬ (path.IsFit tree.working ∧ tree.IsOpen path))
      (htried : tree.Tried path tree') : Refused path text tree .fileSystem tree'
  | broken {fault : Fault} {tree' : FileTree} (h : tree.Broke path text fault tree') :
      Refused path text tree fault tree'

/-- What is pending is kept if the report cannot be written. -/
theorem refused_of_fails_flush (h : Fails flush writer world fault writer' world') :
    writer' = writer ∧ writer.pending ≠ [] ∧ Refused writer.path
      (Plan.reportText world.files writer.path writer.pending) world.files fault world'.files := by
  simp only [flush, fails_bind, fails_get, false_or, ends_get] at h
  obtain ⟨_, writer, _, ⟨rfl, rfl, rfl⟩, h⟩ := h
  split at h
  · exact absurd h fails_pure
  next hsome =>
  have hne : writer.pending ≠ [] := mt List.isEmpty_iff.mpr hsome
  rcases fails_bind.mp h with hread | ⟨_, _, _, hread, hrest⟩
  · obtain ⟨rfl, rfl, rfl | ⟨rfl, hbarred⟩⟩ := fails_readReport hread
    · exact ⟨rfl, hne, .unreadable⟩
    · exact ⟨rfl, hne, .barred hbarred .untouched⟩
  obtain ⟨rfl, rfl⟩ := eq_of_ends_readReport hread
  rcases fails_bind.mp hrest with hmake | ⟨_, _, _, hmade, hlast⟩
  · obtain ⟨rfl, ⟨hpath, rfl⟩ | ⟨-, rfl, files, hfiles, rfl⟩⟩ := fails_makeDirectories hmake
    · exact ⟨rfl, hne, .parentUnnamed hpath⟩
    · refine ⟨rfl, hne, .barred (fun hfree => ?_) (FileTree.tried_of_made hfiles)⟩
      obtain ⟨made, hmade, -⟩ := FileTree.exists_made hfree.1 hfree.2
      simp [hfiles] at hmade
  obtain ⟨-, rfl, made, hfiles, rfl⟩ := ends_makeDirectories.mp hmade
  simp only [writeText, fails_bind, fails_notify, fails_modify, fails_pure, and_false,
    exists_false, or_false] at hlast
  rcases hlast with hopen | ⟨_, _, _, hopen, hfill⟩
  · obtain ⟨rfl, rfl, hpath | ⟨-, rfl, hrefused⟩⟩ := fails_openFile hopen
    · exact ⟨rfl, hne, .unnamed hpath (FileTree.tried_of_made hfiles)⟩
    · refine ⟨rfl, hne, .barred (fun hfree => ?_) (FileTree.tried_of_made hfiles)⟩
      obtain ⟨_, hmade, -, hlocate, hplace⟩ := FileTree.exists_made hfree.1 hfree.2
      obtain ⟨rfl, -⟩ := Prod.mk.inj (hfiles.symm.trans hmade)
      exact absurd (FileTree.opened?_eq_some.mpr ⟨_, hlocate, hplace, rfl⟩) (by simp [hrefused])
  · obtain ⟨hpath, rfl, opened, hopened, rfl⟩ := ends_openFile.mp hopen
    obtain ⟨-, rfl, -, -⟩ := (ends_readReport hpath).mp hread
    obtain ⟨rfl, hbroke⟩ := broke_of_fails_fill hfiles hopened hfill
    exact ⟨rfl, hne, .broken hbroke⟩

theorem fails_flush (h : Fails flush writer world .fileSystem writer' world') :
    writer' = writer ∧ writer.pending ≠ [] ∧
      (world.files.Tried writer.path world'.files ∧
          ¬ (writer.path.IsFit world.files.working ∧ world.files.IsOpen writer.path) ∨
        world.files.IsOpen writer.path ∧ ¬ world.files.Takes writer.path
          ((Plan.reportText world.files writer.path writer.pending).utf8?.getD .empty)) := by
  obtain ⟨hwriter, hne, hrefused⟩ := refused_of_fails_flush h
  refine ⟨hwriter, hne, ?_⟩
  generalize world'.files = left at hrefused ⊢
  cases hrefused with
  | parentUnnamed hpath => rcases eq_of_pathFault? hpath with he | he <;> cases he
  | unnamed hpath _ => rcases eq_of_pathFault? hpath with he | he <;> cases he
  | barred hbarred htried => exact .inl ⟨htried, hbarred⟩
  | broken hbroke => exact .inr ⟨hbroke.isOpen, hbroke.not_takes⟩

end ReportWriter

namespace Session

variable {table : SymbolTable} {session session' : Session}

theorem scanFiles_append (table : SymbolTable) (files more : List SourceFile) :
    scanFiles (m := StateM World) table (files ++ more) = (do
      let first ← scanFiles table files
      let second ← scanFiles table more
      return (first.1 + second.1, first.2 ++ second.2)) := by
  induction files with
  | nil => simp [scanFiles]
  | cons file files ih =>
    simp only [List.cons_append, scanFiles, ih, bind_assoc]
    refine congrArg _ (funext fun accepted => ?_)
    cases accepted with
    | false => simp
    | true => simp [Nat.add_right_comm]

theorem run_scanFiles_cons (table : SymbolTable) (files : List SourceFile) (world : World)
    {file : SourceFile} {accepted : Bool}
    (h : Selection.accepts? session.config file = some accepted) :
    scanFiles (m := StateM World) table (file :: files) session world =
      (if accepted then do
        let deferred ← scanFile table file
        let (count, later) ← scanFiles table files
        return (count + 1, deferred ++ later)
      else scanFiles table files : Task (StateM World) Session _) session world := by
  simp only [scanFiles, accepts, run_bind, run_get, h, ofOption, run_pure]

section

variable {m : Type → Type} [Monad m] [Host m]

/-- A scan up to the unit of a file: the files before are scanned, and its tests are there. -/
def approach (table : SymbolTable) (earlier : List SourceFile) (file : SourceFile) :
    Task m Session ((Nat × List FunctionDecl) × List FunctionDecl × List Fragment) := do
  let counted ← scanFiles table earlier
  let prepared ← prepare table file
  return (counted, prepared)

end

theorem repeats_approach {bound : MarkerRegistry → Prop}
    {like : MarkerRegistry → MarkerRegistry → Prop} {limit : UnitWriter → Prop}
    {units : UnitWriter → FileTree → UnitWriter → FileTree → Prop}
    {pending pending' : List Violation} (hr : Marker.Replays table bound like)
    (hu : WritesAgain limit units) {earlier : List SourceFile} {file : SourceFile} :
    Repeats (IsWithin bound limit) (Alike like units pending pending')
      (approach (m := StateM World) table earlier file) :=
  repeats_bind (repeats_scanFiles hr hu) fun _ => repeats_bind (repeats_prepare hr) fun _ =>
    repeats_pure

/-- A scan comes to each of the files that are accepted: it writes the unit, and goes on. -/
theorem ends_scanFiles_at {earlier rest : List SourceFile} {file : SourceFile}
    {found : Nat × List FunctionDecl}
    (haccepts : Selection.accepts? session.config file = some true) :
    Ends (scanFiles table (earlier ++ file :: rest)) session world found session' world' ↔
      ∃ counted deferred fragments ready tried written units after counted',
        Ends (approach table earlier file) session world (counted, deferred, fragments) ready
          tried ∧
        Ends (UnitWriter.write file.path fragments) ready.units tried written units after ∧
        Ends (scanFiles table rest) { ready with units } after counted' session' world' ∧
        found = (counted.1 + (counted'.1 + 1), counted.2 ++ (deferred ++ counted'.2)) := by
  simp only [scanFiles_append, approach, ends_bind, ends_pure]
  constructor
  · rintro ⟨counted, middle, between, hearlier, _, _, _, hrest, rfl, rfl, rfl⟩
    have hconfig := (stays_scanFiles.ends hearlier).config_eq
    rw [Ends, run_scanFiles_cons _ _ _ (hconfig ▸ haccepts)] at hrest
    obtain ⟨deferred, _, after, hfile, hlast⟩ := ends_bind.mp hrest
    obtain ⟨counted', _, _, hrest', hpure⟩ := ends_bind.mp hlast
    obtain ⟨rfl, rfl, rfl⟩ := ends_pure.mp hpure
    obtain ⟨fragments, ready, tried, written, units, hprepare, hwrite, rfl⟩ :=
      ends_scanFile_iff.mp hfile
    exact ⟨counted, deferred, fragments, ready, tried, written, units, after, counted',
      ⟨counted, middle, between, hearlier, _, _, _, hprepare, rfl, rfl, rfl⟩, hwrite, hrest', rfl⟩
  · rintro ⟨counted, deferred, fragments, ready, tried, written, units, after, counted',
      ⟨_, middle, between, hearlier, _, _, _, hprepare, he, rfl, rfl⟩, hwrite, hrest, rfl⟩
    obtain ⟨rfl, rfl⟩ := Prod.mk.inj he
    have hconfig := (stays_scanFiles.ends hearlier).config_eq
    refine ⟨counted, middle, between, hearlier, (counted'.1 + 1, deferred ++ counted'.2), _, _, ?_,
      rfl, rfl, rfl⟩
    rw [Ends, run_scanFiles_cons _ _ _ (hconfig ▸ haccepts)]
    exact ends_bind.mpr ⟨deferred, _, after,
      ends_scanFile_iff.mpr ⟨fragments, ready, tried, written, units, hprepare, hwrite, rfl⟩,
      ends_bind.mpr ⟨counted', _, _, hrest, ends_pure.mpr ⟨rfl, rfl, rfl⟩⟩⟩

theorem exists_stop {files : List SourceFile} (hfault : fault ≠ .illTyped)
    (h : Fails (scanFiles table files) session world fault session' world') :
    ∃ earlier file later found middle between, files = earlier ++ file :: later ∧
      Ends (scanFiles table earlier) session world found middle between ∧
      Selection.accepts? middle.config file = some true ∧
      Fails (scanFile table file) middle between fault session' world' := by
  induction files generalizing session world with
  | nil => exact absurd h fails_pure
  | cons file files ih =>
    cases haccepts : Selection.accepts? session.config file with
    | none =>
      have hrun : scanFiles (m := StateM World) table (file :: files) session world =
          ((.error .illTyped, session), world) := by
        simp only [scanFiles, accepts, run_bind, run_get, haccepts, ofOption, run_throw]
      rw [Fails, hrun] at h
      cases h
      exact absurd rfl hfault
    | some accepted =>
      have hcons (files : List SourceFile) := run_scanFiles_cons table files world haccepts
      rw [Fails, hcons] at h
      cases accepted with
      | false =>
        obtain ⟨earlier, other, later, found, middle, between, rfl, hearlier, hother⟩ := ih h
        refine ⟨file :: earlier, other, later, found, middle, between, rfl, ?_, hother⟩
        rw [Ends, hcons]
        exact hearlier
      | true =>
        rcases fails_bind.mp h with hfile | ⟨deferred, next, after, hfile, hrest⟩
        · exact ⟨[], file, files, _, session, world, rfl, ends_pure.mpr ⟨rfl, rfl, rfl⟩, haccepts,
            hfile⟩
        rcases fails_bind.mp hrest with hrest | ⟨_, _, _, -, hnone⟩
        · obtain ⟨earlier, other, later, found, middle, between, rfl, hearlier, hother⟩ := ih hrest
          refine ⟨file :: earlier, other, later, (found.1 + 1, deferred ++ found.2), middle,
            between, rfl, ?_, hother⟩
          rw [Ends, hcons]
          exact ends_bind.mpr ⟨deferred, next, after, hfile,
            ends_bind.mpr ⟨found, _, _, hearlier, ends_pure.mpr ⟨rfl, rfl, rfl⟩⟩⟩
        · exact absurd hnone fails_pure

theorem fails_scanFile {file : SourceFile} (hfault : fault ≠ .illTyped)
    (h : Fails (scanFile table file) session world fault session' world') :
    ∃ deferred fragments middle between units,
      Ends (prepare table file) session world (deferred, fragments) middle between ∧
      Fails (UnitWriter.write file.path fragments) middle.units between fault units world' ∧
      session' = { middle with units } := by
  rcases fails_bind.mp h with hselect | ⟨selection, _, _, hselect, h⟩
  · exact absurd (stays_selectFrom.fails hselect).2 hfault
  rcases fails_bind.mp h with hsynthesize | ⟨fragments, middle, between, hsynthesize, h⟩
  · exact absurd (stays_synthesizeAll.fails hsynthesize).2 hfault
  rcases fails_bind.mp h with hwrite | ⟨_, _, _, -, hnone⟩
  · obtain ⟨units, hunits, rfl⟩ := fails_within.mp hwrite
    exact ⟨selection.deferred, fragments, middle, between, units, ends_bind.mpr ⟨selection, _, _,
      hselect, ends_bind.mpr ⟨fragments, _, _, hsynthesize, ends_pure.mpr ⟨rfl, rfl, rfl⟩⟩⟩,
      hunits, rfl⟩
  · exact absurd hnone fails_pure

/-- A scan that fails for the sake of the files stops at a unit that is not written. -/
theorem fails_scanFiles {files : List SourceFile} (hfault : fault ≠ .illTyped)
    (h : Fails (scanFiles table files) session world fault session' world') :
    ∃ earlier file rest counted deferred fragments ready tried units,
      files = earlier ++ file :: rest ∧ Selection.accepts? session.config file = some true ∧
      Ends (approach table earlier file) session world (counted, deferred, fragments) ready tried ∧
      Fails (UnitWriter.write file.path fragments) ready.units tried fault units world' ∧
      session' = { ready with units } := by
  obtain ⟨earlier, file, rest, counted, middle, between, rfl, hearlier, haccepts, hfile⟩ :=
    exists_stop hfault h
  obtain ⟨deferred, fragments, ready, tried, units, hprepare, hwrite, rfl⟩ :=
    fails_scanFile hfault hfile
  refine ⟨earlier, file, rest, counted, deferred, fragments, ready, tried, units, rfl,
    (stays_scanFiles.ends hearlier).config_eq ▸ haccepts, ?_, hwrite, rfl⟩
  exact ends_bind.mpr ⟨counted, middle, between, hearlier,
    ends_bind.mpr ⟨_, ready, tried, hprepare, ends_pure.mpr ⟨rfl, rfl, rfl⟩⟩⟩

/-- A round that fails for the sake of the files stops in its scan, or at the report. -/
theorem fails_round (hfault : fault ≠ .illTyped)
    (h : Fails (round table) session world fault session' world') :
    ∃ started between files, Ends (start table) session world () started between ∧
      table.newFiles? = some files ∧
      (Fails (scanFiles table files) started between fault session' world' ∨
        ∃ found scanned later report,
          Ends (scanFiles table files) started between found scanned later ∧
          Fails ReportWriter.flush scanned.report later fault report world' ∧
          session' = { scanned with report }) := by
  rcases fails_bind.mp h with hstart | ⟨_, started, between, hstart, hrest⟩
  · exact absurd (stays_start.fails hstart).2 hfault
  rcases fails_bind.mp hrest with hnone | ⟨files, _, _, hsome, hscans⟩
  · exact absurd (fails_ofOption.mp hnone).2.1 hfault
  obtain ⟨hfiles, rfl, rfl⟩ := ends_ofOption.mp hsome
  refine ⟨_, _, files, hstart, hfiles, ?_⟩
  rcases fails_bind.mp hscans with hscan | ⟨found, scanned, later, hscan, hlast⟩
  · exact .inl hscan
  simp only [onReport, fails_bind, fails_within, fails_get, fails_notify, fails_pure, and_false,
    exists_false, or_false] at hlast
  obtain ⟨report, hflush, rfl⟩ := hlast
  exact .inr ⟨found, scanned, later, report, hscan, hflush, rfl⟩

end Session

end PreviewShots
