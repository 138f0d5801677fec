import PreviewShots.Proofs.Faults
import PreviewShots.Proofs.Marker.Query
import PreviewShots.Session

/-!
# The steps of a round

What each step of a round leaves alone, whatever becomes of it. Functions are selected and
their tests synthesized without a look at files: the units of the session stay, its registry
settles more, and what may stop them is a value of an unexpected kind. A round may do more,
but it never changes how units and reports are named.
-/

open PreviewShots.Task

namespace PreviewShots

variable {table : SymbolTable} {config : Config} {stops : Fault → Prop}

-- ---------------------------------------------------------------------------
-- Classifiers
-- ---------------------------------------------------------------------------

/-- The later classifier settles what follows from the earlier one. -/
def Classifier.Learns (table : SymbolTable) (before after : Classifier) : Prop :=
  Marker.Settles table before.registry after.registry

instance : IsPreorder Classifier (Classifier.Learns table) where
  refl _ := Marker.Settles.refl
  trans _ _ _ h h' := Marker.Settles.trans h h'

theorem Classifier.stays_search {α : Type} {found : Search α} :
    Stays (Learns table) (· = .illTyped) (Classifier.search table found) :=
  stays_bind (stays_modify fun _ => Marker.Settles.refl) fun _ => stays_ofOption rfl

theorem Marker.stays_classify {name : Label} :
    Stays (Classifier.Learns table) (· = .illTyped) (classify (m := StateM World) table name) := by
  intro classifier world
  obtain ⟨result, after, hrun, hasked⟩ := classify_asked table name classifier world
  rw [hrun]
  refine ⟨hasked.settles, ?_⟩
  rintro fault rfl
  exact hasked.tells.1

/-- The verdicts of the later classifier are in form if those of the earlier one are. -/
def Classifier.KeepsForm (before after : Classifier) : Prop :=
  before.registry.WellFormed → after.registry.WellFormed

instance : IsPreorder Classifier Classifier.KeepsForm where
  refl _ := id
  trans _ _ _ h h' := h' ∘ h

theorem Marker.stays_seed :
    Stays Classifier.KeepsForm (· = .illTyped) (seed (m := StateM World) table) := by
  have hfaults : Stays (Spared fun _ => ()) (· = .illTyped) (seed (m := StateM World) table) := by
    refine stays_bind stays_get fun _ => stays_bind ?_ fun _ => stays_bind stays_get fun _ =>
      stays_bind (stays_modify fun _ => rfl) fun _ => stays_pure
    exact Classifier.stays_search.mono (fun _ _ _ => rfl) fun _ => id
  intro classifier world
  refine ⟨fun hw => ?_, (hfaults classifier world).2⟩
  obtain ⟨result, after, hrun, hok, herror⟩ := seed_seeded table classifier world hw
  rw [hrun]
  cases result with
  | ok count => exact (hok count rfl).wellFormed
  | error fault => exact (herror fault rfl).1 ▸ hw

theorem Marker.stays_matching {annotations : List Annotation} :
    Stays (Classifier.Learns table) (· = .illTyped)
      (matching (m := StateM World) table annotations) := by
  induction annotations with
  | nil => exact stays_pure
  | cons a rest ih =>
    exact stays_bind stays_classify fun _ => stays_bind ih fun _ => stays_pure

theorem Selection.stays_decision {function : FunctionDecl} :
    Stays (Classifier.Learns table) (· = .illTyped)
      (decision (m := StateM World) table config function) := by
  simp only [decision]
  split
  · exact stays_pure
  refine stays_bind Marker.stays_matching fun markers => ?_
  split
  · exact stays_pure
  refine stays_bind Classifier.stays_search fun out => ?_
  split
  · exact stays_pure
  · exact stays_bind Classifier.stays_search fun _ => stays_pure

theorem Eligible.stays_synthesize {eligible : Eligible} :
    Stays (Classifier.Learns table) (· = .illTyped)
      (eligible.synthesize (m := StateM World) table config) :=
  stays_bind (stays_expect rfl) fun _ => stays_bind Classifier.stays_search fun _ =>
    stays_bind (stays_expect rfl) fun _ => stays_bind stays_notifyAll fun _ =>
      stays_bind (stays_expect rfl) fun _ => stays_bind stays_notifyAll fun _ =>
        stays_ofOption rfl

-- ---------------------------------------------------------------------------
-- Writers
-- ---------------------------------------------------------------------------

theorem Outputs.stays_create {output : Output} {content : Text} :
    Stays (Spared Outputs.directory) (fun _ => True)
      (create (m := StateM World) output content) := by
  refine stays_bind stays_get fun outputs => ?_
  have hwrite : Stays (Spared Outputs.directory) (fun _ => True) (do
      Task.makeDirectories (m := StateM World) output.path.parent
      Task.openFile output.path
      modify (·.add output)
      Task.fill output.path content) := by
    refine stays_bind (stays_makeDirectories.mono (fun _ _ => id) fun _ _ => trivial) fun _ => ?_
    refine stays_bind (stays_openFile.mono (fun _ _ => id) fun _ _ => trivial) fun _ => ?_
    refine stays_bind (stays_modify fun _ => rfl) fun _ => ?_
    exact stays_fill.mono (fun _ _ => id) fun _ _ => trivial
  split
  · exact stays_bind (stays_throw trivial) fun _ => hwrite
  · exact hwrite

/-- How the outputs of a writer are named. -/
def UnitWriter.naming (writer : UnitWriter) : Text × Path :=
  (writer.suffix, writer.outputs.directory)

theorem UnitWriter.stays_write {source : Label} {fragments : List Fragment} :
    Stays (Spared naming) (fun _ => True) (write (m := StateM World) source fragments) := by
  cases fragments with
  | nil => exact stays_pure
  | cons first rest =>
    simp only [write]
    split
    case h_2 => exact stays_throw trivial
    refine stays_bind stays_get fun writer => ?_
    split
    · exact stays_pure
    refine stays_bind stays_notifyAll fun _ => stays_bind (stays_expect trivial) fun _ => ?_
    split
    case h_2 => exact stays_throw trivial
    exact stays_bind (stays_within Outputs.stays_create fun _ _ h => congrArg (Prod.mk _) h)
      fun _ => stays_bind (stays_modify fun _ => rfl) fun _ =>
        stays_bind stays_notify fun _ => stays_pure

theorem ReportWriter.stays_flush :
    Stays (Spared ReportWriter.path) IsNew (flush (m := StateM World)) := by
  refine stays_bind stays_get fun writer => ?_
  split
  · exact stays_pure
  refine stays_bind ?_ fun _ => stays_bind stays_makeDirectories fun _ =>
    stays_bind stays_writeText fun _ => stays_bind stays_notify fun _ =>
      stays_bind (stays_modify fun _ => rfl) fun _ => stays_pure
  refine stays_bind stays_isThere fun there => ?_
  split
  · exact stays_bind stays_readText fun _ => stays_pure
  · exact stays_pure

-- ---------------------------------------------------------------------------
-- Sessions
-- ---------------------------------------------------------------------------

namespace Session

/-- What selection and synthesis do to a session. -/
structure Proceeds (table : SymbolTable) (before after : Session) : Prop where
  config_eq : after.config = before.config
  units_eq : after.units = before.units
  path_eq : after.report.path = before.report.path
  learns : Classifier.Learns table before.classifier after.classifier

instance : IsPreorder Session (Proceeds table) where
  refl _ := ⟨rfl, rfl, rfl, Marker.Settles.refl⟩
  trans _ _ _ h h' := ⟨h'.config_eq.trans h.config_eq, h'.units_eq.trans h.units_eq,
    h'.path_eq.trans h.path_eq, Marker.Settles.trans h.learns h'.learns⟩

theorem stays_onClassifier {α : Type} {task : Task (StateM World) Classifier α}
    (h : Stays (Classifier.Learns table) stops task) :
    Stays (Proceeds table) stops (onClassifier task) :=
  stays_within h fun _ _ hlearns => ⟨rfl, rfl, rfl, hlearns⟩

section

variable {m : Type → Type} [Monad m] [Host m]

/-- What is recorded on a decision, if violations are audited. -/
def audit (audited : Bool) (file : SourceFile) (function : FunctionDecl) :
    Decision → Task m Session Unit
  | .violation =>
    if audited then onReport (ReportWriter.record ⟨file.path, function.simpleName⟩) else pure ()
  | _ => pure ()

end

theorem selectFrom_cons (table : SymbolTable) (audited : Bool) (file : SourceFile)
    (function : FunctionDecl) (functions : List FunctionDecl) :
    selectFrom (m := StateM World) table audited file (function :: functions) = (do
      let decision ← onClassifier (Selection.decision table (← get).config function)
      audit audited file function decision
      return (← selectFrom table audited file functions).add file function decision) := by
  simp only [selectFrom]
  refine congrArg _ (funext fun session => congrArg _ (funext fun decision => ?_))
  cases decision with
  | violation => cases audited <;> rfl
  | _ => rfl

theorem stays_audit {audited : Bool} {file : SourceFile} {function : FunctionDecl}
    {decision : Decision} :
    Stays (Proceeds table) stops (audit (m := StateM World) audited file function decision) := by
  have hrecord (violation : Violation) : Stays (Spared ReportWriter.path) stops
      (ReportWriter.record (m := StateM World) violation) :=
    stays_bind (stays_modify fun _ => rfl) fun _ => stays_notify
  simp only [audit]
  split
  · split
    · exact stays_within (hrecord _) fun _ _ hpath => ⟨rfl, rfl, hpath, Marker.Settles.refl⟩
    · exact stays_pure
  · exact stays_pure

theorem stays_selectFrom {audited : Bool} {file : SourceFile} {functions : List FunctionDecl} :
    Stays (Proceeds table) (· = .illTyped)
      (selectFrom (m := StateM World) table audited file functions) := by
  induction functions with
  | nil => exact stays_pure
  | cons function functions ih =>
    rw [selectFrom_cons]
    exact stays_bind stays_get fun _ => stays_bind (stays_onClassifier Selection.stays_decision)
      fun _ => stays_bind stays_audit fun _ => stays_bind ih fun _ => stays_pure

theorem stays_synthesizeAll {eligibles : List Eligible} :
    Stays (Proceeds table) (· = .illTyped)
      (synthesizeAll (m := StateM World) table eligibles) := by
  induction eligibles with
  | nil => exact stays_pure
  | cons eligible eligibles ih =>
    exact stays_bind stays_get fun _ => stays_bind
      (stays_onClassifier Eligible.stays_synthesize) fun _ =>
        stays_bind ih fun _ => stays_pure

/-- What the start of a round does to a session. -/
structure Starts (before after : Session) : Prop where
  config_eq : after.config = before.config
  units_eq : after.units = before.units
  report_eq : after.report = before.report
  keepsForm : Classifier.KeepsForm before.classifier after.classifier

instance : IsPreorder Session Starts where
  refl _ := ⟨rfl, rfl, rfl, id⟩
  trans _ _ _ h h' := ⟨h'.config_eq.trans h.config_eq, h'.units_eq.trans h.units_eq,
    h'.report_eq.trans h.report_eq, h'.keepsForm ∘ h.keepsForm⟩

theorem stays_start : Stays Starts (· = .illTyped) (start (m := StateM World) table) :=
  stays_bind (stays_modify fun _ => ⟨rfl, rfl, rfl, id⟩) fun _ =>
    stays_bind (stays_within Marker.stays_seed fun _ _ hform => ⟨rfl, rfl, rfl, hform⟩) fun _ =>
      stays_pure

theorem stays_accepts {goes : Session → Session → Prop} [IsPreorder Session goes]
    {file : SourceFile} (h : stops .illTyped) :
    Stays goes stops (accepts (m := StateM World) file) :=
  stays_bind stays_get fun _ => stays_ofOption h

/-- What a scan does to a session. -/
structure Scans (table : SymbolTable) (before after : Session) : Prop where
  config_eq : after.config = before.config
  naming_eq : after.units.naming = before.units.naming
  path_eq : after.report.path = before.report.path
  learns : Classifier.Learns table before.classifier after.classifier

instance : IsPreorder Session (Scans table) where
  refl _ := ⟨rfl, rfl, rfl, Marker.Settles.refl⟩
  trans _ _ _ h h' := ⟨h'.config_eq.trans h.config_eq, h'.naming_eq.trans h.naming_eq,
    h'.path_eq.trans h.path_eq, Marker.Settles.trans h.learns h'.learns⟩

theorem stays_scanFile {file : SourceFile} :
    Stays (Scans table) (fun _ => True) (scanFile (m := StateM World) table file) := by
  have hproceeds {α : Type} {task : Task (StateM World) Session α}
      (h : Stays (Proceeds table) (· = .illTyped) task) :
      Stays (Scans table) (fun _ => True) task :=
    h.mono (fun _ _ hp => ⟨hp.config_eq, congrArg UnitWriter.naming hp.units_eq, hp.path_eq,
      hp.learns⟩) fun _ _ => trivial
  refine stays_bind (hproceeds stays_selectFrom) fun _ =>
    stays_bind (hproceeds stays_synthesizeAll) fun _ => stays_bind ?_ fun _ => stays_pure
  exact stays_within UnitWriter.stays_write fun _ _ hnaming => ⟨rfl, hnaming, rfl,
    Marker.Settles.refl⟩

theorem stays_scanFiles {files : List SourceFile} :
    Stays (Scans table) (fun _ => True) (scanFiles (m := StateM World) table files) := by
  induction files with
  | nil => exact stays_pure
  | cons file files ih =>
    refine stays_bind (stays_accepts trivial) fun accepted => ?_
    split
    · exact stays_bind stays_scanFile fun _ => stays_bind ih fun _ => stays_pure
    · exact ih

end Session

end PreviewShots
