import PreviewShots.Proofs.Marker.Memory
import PreviewShots.Proofs.Steps

/-!
# Scans that are held again

A scan depends on what the session has come to. Where one session follows another one, alike
in its configuration, its registry, its report and its units, it selects the same functions
and defers the same ones (`repeats_scanFiles`). What it is to be alike is left open: a session
may know already what the other one finds out, or find it out again.
-/

open PreviewShots.Task

namespace PreviewShots

-- ---------------------------------------------------------------------------
-- Tasks
-- ---------------------------------------------------------------------------

namespace Task

variable {σ α β : Type} {within : σ → Prop} {like : σ → FileTree → σ → FileTree → Prop}

/-- A run of the task that ends within the bounds is followed by a run from any state that
is like the first one. It ends with the same value and in a state like the other one. -/
def Repeats (within : σ → Prop) (like : σ → FileTree → σ → FileTree → Prop)
    (task : Task (StateM World) σ α) : Prop :=
  ∀ a first world first' world', Ends task first world a first' world' → within first' →
    within first ∧ ∀ second later, like first world.files second later.files →
      ∃ second' later', Ends task second later a second' later' ∧
        like first' world'.files second' later'.files

theorem Repeats.alike {task : Task (StateM World) σ α} {a b : α}
    {first first' second second' : σ} {world world' later later' : World}
    (h : Repeats within like task) (hfirst : Ends task first world a first' world')
    (hsecond : Ends task second later b second' later') (hwithin : within first')
    (hlike : like first world.files second later.files) :
    b = a ∧ like first' world'.files second' later'.files := by
  obtain ⟨-, hfollow⟩ := h _ _ _ _ _ hfirst hwithin
  obtain ⟨_, _, hends, halike⟩ := hfollow second later hlike
  obtain ⟨rfl, rfl, rfl⟩ := hsecond.unique hends
  exact ⟨rfl, halike⟩

theorem repeats_pure {a : α} : Repeats within like (pure a) := by
  intro b first world first' world' h hwithin
  obtain ⟨rfl, rfl, rfl⟩ := ends_pure.mp h
  exact ⟨hwithin, fun second later hlike => ⟨_, _, ends_pure.mpr ⟨rfl, rfl, rfl⟩, hlike⟩⟩

theorem repeats_bind {task : Task (StateM World) σ α} {next : α → Task (StateM World) σ β}
    (h : Repeats within like task) (hnext : ∀ a, Repeats within like (next a)) :
    Repeats within like (task >>= next) := by
  intro b first world first' world' hends hwithin
  obtain ⟨a, middle, between, htask, hrest⟩ := ends_bind.mp hends
  obtain ⟨hmiddle, hfollow⟩ := hnext a _ _ _ _ _ hrest hwithin
  obtain ⟨hfirst, hfollow'⟩ := h _ _ _ _ _ htask hmiddle
  refine ⟨hfirst, fun second later hlike => ?_⟩
  obtain ⟨_, _, htask', hlike'⟩ := hfollow' second later hlike
  obtain ⟨second', later', hrest', hlike''⟩ := hfollow _ _ hlike'
  exact ⟨second', later', ends_bind.mpr ⟨a, _, _, htask', hrest'⟩, hlike''⟩

theorem repeats_get {next : σ → Task (StateM World) σ α}
    (hlike : ∀ first tree second tree', like first tree second tree' → next second = next first)
    (hnext : ∀ state, Repeats within like (next state)) : Repeats within like (get >>= next) := by
  intro a first world first' world' h hwithin
  obtain ⟨_, _, _, hget, hrest⟩ := ends_bind.mp h
  obtain ⟨rfl, rfl, rfl⟩ := ends_get.mp hget
  obtain ⟨hfirst, hfollow⟩ := hnext _ _ _ _ _ _ hrest hwithin
  refine ⟨hfirst, fun second later hl => ?_⟩
  obtain ⟨second', later', hrest', hlike'⟩ := hfollow second later hl
  rw [← hlike _ _ _ _ hl] at hrest'
  exact ⟨second', later', ends_bind.mpr ⟨_, _, _, ends_get.mpr ⟨rfl, rfl, rfl⟩, hrest'⟩, hlike'⟩

theorem repeats_modify {change : σ → σ} (hwithin : ∀ state, within (change state) → within state)
    (hlike : ∀ first tree second tree', like first tree second tree' →
      like (change first) tree (change second) tree') :
    Repeats within like (modify change : Task (StateM World) σ PUnit) := by
  intro u first world first' world' h hw
  obtain ⟨rfl, rfl⟩ := ends_modify.mp h
  exact ⟨hwithin _ hw, fun second later hl =>
    ⟨_, _, ends_modify.mpr ⟨rfl, rfl⟩, hlike _ _ _ _ hl⟩⟩

theorem repeats_ofOption {found : Option α} : Repeats within like (ofOption found) := by
  intro a first world first' world' h hwithin
  obtain ⟨hfound, rfl, rfl⟩ := ends_ofOption.mp h
  exact ⟨hwithin, fun second later hl => ⟨_, _, ends_ofOption.mpr ⟨hfound, rfl, rfl⟩, hl⟩⟩

theorem repeats_expect {condition : Bool} : Repeats within like (expect condition) := by
  intro u first world first' world' h hwithin
  obtain ⟨hcondition, rfl, rfl⟩ := ends_expect.mp h
  exact ⟨hwithin, fun second later hl => ⟨_, _, ends_expect.mpr ⟨hcondition, rfl, rfl⟩, hl⟩⟩

theorem repeats_notifyAll {notices : List Notice} : Repeats within like (notifyAll notices) := by
  intro u first world first' world' h hwithin
  obtain ⟨rfl, rfl⟩ := ends_notifyAll.mp h
  exact ⟨hwithin, fun second later hl => ⟨_, _, ends_notifyAll.mpr ⟨rfl, rfl⟩, hl⟩⟩

end Task

-- ---------------------------------------------------------------------------
-- Classifiers
-- ---------------------------------------------------------------------------

variable {table : SymbolTable} {config : Config} {α : Type}
  {bound : MarkerRegistry → Prop} {like : MarkerRegistry → MarkerRegistry → Prop}

/-- The registries are alike, and the trees are the given ones. -/
def Classifier.Alike (like : MarkerRegistry → MarkerRegistry → Prop) (tree tree' : FileTree)
    (first : Classifier) (here : FileTree) (second : Classifier) (there : FileTree) : Prop :=
  like first.registry second.registry ∧ here = tree ∧ there = tree'

/-- A task of a classifier that looks at no files and gives the same value again. -/
def Classifier.Repeats (bound : MarkerRegistry → Prop)
    (like : MarkerRegistry → MarkerRegistry → Prop) (task : Task (StateM World) Classifier α) :
    Prop :=
  ∀ tree tree', Task.Repeats (fun c => bound c.registry) (Classifier.Alike like tree tree') task

theorem Classifier.repeats_search {search : Search α} :
    Classifier.Repeats bound like (Classifier.search table search) :=
  fun _ _ => repeats_bind (repeats_modify (fun _ => id) fun _ _ _ _ => id) fun _ => repeats_ofOption

namespace Marker

theorem repeats_classify (hr : Replays table bound like) {name : Label} :
    Classifier.Repeats bound like (classify (m := StateM World) table name) := by
  intro tree tree' answer first world first' world' h hwithin
  obtain ⟨rfl, hsettles, -⟩ := ends_classify h
  refine ⟨hr.earlier hsettles hwithin, fun second later hl => ?_⟩
  obtain ⟨second', hends, hlike⟩ := hr.classify h hwithin hl.1 later
  exact ⟨second', later, hends, hlike, hl.2⟩

theorem repeats_matching (hr : Replays table bound like) {annotations : List Annotation} :
    Classifier.Repeats bound like (matching (m := StateM World) table annotations) := by
  intro tree tree'
  induction annotations with
  | nil => exact repeats_pure
  | cons a rest ih =>
    exact repeats_bind (repeats_classify hr tree tree') fun _ => repeats_bind ih fun _ =>
      repeats_pure

end Marker

theorem Selection.repeats_decision (hr : Marker.Replays table bound like)
    {function : FunctionDecl} :
    Classifier.Repeats bound like (decision (m := StateM World) table config function) := by
  intro tree tree'
  simp only [decision]
  split
  · exact repeats_pure
  refine repeats_bind (Marker.repeats_matching hr tree tree') fun markers => ?_
  split
  · exact repeats_pure
  refine repeats_bind (Classifier.repeats_search tree tree') fun out => ?_
  split
  · exact repeats_pure
  · exact repeats_bind (Classifier.repeats_search tree tree') fun _ => repeats_pure

theorem Eligible.repeats_synthesize {eligible : Eligible} :
    Classifier.Repeats bound like (eligible.synthesize (m := StateM World) table config) :=
  fun tree tree' => repeats_bind repeats_expect fun _ =>
    repeats_bind (Classifier.repeats_search tree tree') fun _ =>
      repeats_bind repeats_expect fun _ => repeats_bind repeats_notifyAll fun _ =>
        repeats_bind repeats_expect fun _ => repeats_bind repeats_notifyAll fun _ =>
          repeats_ofOption

-- ---------------------------------------------------------------------------
-- Sessions
-- ---------------------------------------------------------------------------

namespace Session

/-- Sessions that differ in their registries, their units and the files around them as
the relations allow, and that have recorded the same violations since they had these. -/
structure Alike (like : MarkerRegistry → MarkerRegistry → Prop)
    (units : UnitWriter → FileTree → UnitWriter → FileTree → Prop)
    (pending pending' : List Violation)
    (first : Session) (tree : FileTree) (second : Session) (tree' : FileTree) : Prop where
  config_eq : second.config = first.config
  registries : like first.classifier.registry second.classifier.registry
  path_eq : second.report.path = first.report.path
  pending : ∃ more,
    first.report.pending = pending ++ more ∧ second.report.pending = pending' ++ more
  units : units first.units tree second.units tree'

/-- A session that has come no further than the bounds. -/
def IsWithin (bound : MarkerRegistry → Prop) (limit : UnitWriter → Prop) (session : Session) :
    Prop :=
  bound session.classifier.registry ∧ limit session.units

variable {limit : UnitWriter → Prop} {units : UnitWriter → FileTree → UnitWriter → FileTree → Prop}
  {pending pending' : List Violation}

theorem repeats_onClassifier {task : Task (StateM World) Classifier α}
    (h : Classifier.Repeats bound like task) :
    Repeats (IsWithin bound limit) (Alike like units pending pending') (onClassifier task) := by
  intro a first world first' world' hends hwithin
  obtain ⟨classifier, htask, rfl⟩ := ends_within.mp hends
  refine ⟨⟨(h .empty .empty _ _ _ _ _ htask hwithin.1).1, hwithin.2⟩, fun second later hl => ?_⟩
  obtain ⟨-, hfollow⟩ := h world.files later.files _ _ _ _ _ htask hwithin.1
  obtain ⟨classifier', later', htask', hlike, hhere, hthere⟩ :=
    hfollow second.classifier later ⟨hl.registries, rfl, rfl⟩
  refine ⟨_, later', ends_within.mpr ⟨classifier', htask', rfl⟩, hl.config_eq, hlike, hl.path_eq,
    hl.pending, ?_⟩
  rw [hhere, hthere]
  exact hl.units

theorem repeats_audit {audited : Bool} {file : SourceFile} {function : FunctionDecl}
    {decision : Decision} :
    Repeats (IsWithin bound limit) (Alike like units pending pending')
      (audit (m := StateM World) audited file function decision) := by
  simp only [audit]
  split
  case h_2 => exact repeats_pure
  split
  case isFalse => exact repeats_pure
  intro u first world first' world' h hwithin
  obtain ⟨report, hrecord, rfl⟩ := ends_within.mp h
  simp only [ReportWriter.record, ends_bind, ends_modify, ends_notify] at hrecord
  obtain ⟨_, _, _, ⟨rfl, rfl⟩, rfl, rfl⟩ := hrecord
  refine ⟨hwithin, fun second later hl => ?_⟩
  refine ⟨_, _, ends_within.mpr ⟨_, ends_bind.mpr ⟨⟨⟩, _, _, ends_modify.mpr ⟨rfl, rfl⟩,
    ends_notify.mpr ⟨rfl, rfl⟩⟩, rfl⟩, hl.config_eq, hl.registries, hl.path_eq, ?_, hl.units⟩
  obtain ⟨more, hfirst, hsecond⟩ := hl.pending
  exact ⟨more ++ [⟨file.path, function.simpleName⟩], by simp [hfirst], by simp [hsecond]⟩

theorem repeats_selectFrom (hr : Marker.Replays table bound like) {audited : Bool}
    {file : SourceFile} {functions : List FunctionDecl} :
    Repeats (IsWithin bound limit) (Alike like units pending pending')
      (selectFrom (m := StateM World) table audited file functions) := by
  induction functions with
  | nil => exact repeats_pure
  | cons function functions ih =>
    rw [selectFrom_cons]
    refine repeats_get (fun _ _ _ _ hl => by simp only [hl.config_eq]) fun _ => ?_
    exact repeats_bind (repeats_onClassifier (Selection.repeats_decision hr)) fun _ =>
      repeats_bind repeats_audit fun _ => repeats_bind ih fun _ => repeats_pure

theorem repeats_synthesizeAll {eligibles : List Eligible} :
    Repeats (IsWithin bound limit) (Alike like units pending pending')
      (synthesizeAll (m := StateM World) table eligibles) := by
  induction eligibles with
  | nil => exact repeats_pure
  | cons eligible eligibles ih =>
    refine repeats_get (fun _ _ _ _ hl => by simp only [hl.config_eq]) fun _ => ?_
    exact repeats_bind (repeats_onClassifier Eligible.repeats_synthesize) fun _ =>
      repeats_bind ih fun _ => repeats_pure

theorem repeats_accepts {file : SourceFile} :
    Repeats (IsWithin bound limit) (Alike like units pending pending')
      (accepts (m := StateM World) file) :=
  repeats_get (fun _ _ _ _ hl => by simp only [hl.config_eq]) fun _ => repeats_ofOption

section

variable {m : Type → Type} [Monad m] [Host m]

/-- What the unit of a file is written from: the functions deferred, and the tests. -/
def prepare (table : SymbolTable) (file : SourceFile) :
    Task m Session (List FunctionDecl × List Fragment) := do
  let selection ← select table true file
  let fragments ← synthesizeAll table selection.eligible
  return (selection.deferred, fragments)

end

theorem ends_scanFile_iff {file : SourceFile} {deferred : List FunctionDecl}
    {session session' : Session} {world world' : World} :
    Ends (scanFile table file) session world deferred session' world' ↔
      ∃ fragments middle between written units,
        Ends (prepare table file) session world (deferred, fragments) middle between ∧
        Ends (UnitWriter.write file.path fragments) middle.units between written units world' ∧
        session' = { middle with units } := by
  simp only [scanFile, prepare, onUnits, ends_bind, ends_within, ends_pure, Prod.mk.injEq]
  constructor
  · rintro ⟨selection, _, _, hselect, fragments, middle, between, hsynthesize, written, _, _,
      ⟨units, hwrite, rfl⟩, rfl, rfl, rfl⟩
    exact ⟨fragments, middle, between, written, units,
      ⟨selection, _, _, hselect, fragments, _, _, hsynthesize, ⟨rfl, rfl⟩, rfl, rfl⟩, hwrite, rfl⟩
  · rintro ⟨fragments, middle, between, written, units,
      ⟨selection, _, _, hselect, _, _, _, hsynthesize, ⟨rfl, rfl⟩, rfl, rfl⟩, hwrite, rfl⟩
    exact ⟨selection, _, _, hselect, fragments, _, _, hsynthesize, written, _, _,
      ⟨units, hwrite, rfl⟩, rfl, rfl, rfl⟩

theorem repeats_prepare (hr : Marker.Replays table bound like) {file : SourceFile} :
    Repeats (IsWithin bound limit) (Alike like units pending pending')
      (prepare (m := StateM World) table file) :=
  repeats_bind (repeats_selectFrom hr) fun _ => repeats_bind repeats_synthesizeAll fun _ =>
    repeats_pure

/-- The tests of a file are prepared without a look at files. -/
theorem eq_of_ends_prepare {file : SourceFile} {prepared : List FunctionDecl × List Fragment}
    {session session' : Session} {world world' : World}
    (h : Ends (prepare table file) session world prepared session' world') :
    session'.units = session.units ∧ world'.files = world.files := by
  have hrepeats : Repeats (IsWithin (fun _ => True) (fun _ => True))
      (Alike MarkerRegistry.Same
        (fun units tree _ _ => units = session.units ∧ tree = world.files) [] [])
      (prepare (m := StateM World) table file) := repeats_prepare (Marker.replays_same table)
  have hself := hrepeats.alike h h ⟨trivial, trivial⟩
    ⟨rfl, fun _ => rfl, rfl, ⟨_, rfl, rfl⟩, rfl, rfl⟩
  exact hself.2.units

/-- A writer that is alike writes the same unit, or passes it over if it has it. -/
def WritesAgain (limit : UnitWriter → Prop)
    (units : UnitWriter → FileTree → UnitWriter → FileTree → Prop) : Prop :=
  ∀ {source fragments world first first' world'} {written : Option UnitKey},
    Ends (UnitWriter.write source fragments) first world written first' world' → limit first' →
    limit first ∧ ∀ second later, units first world.files second later.files →
      ∃ (written' : Option UnitKey) (second' : UnitWriter) (later' : World),
        Ends (UnitWriter.write source fragments) second later written' second' later' ∧
          units first' world'.files second' later'.files

theorem repeats_scanFile (hr : Marker.Replays table bound like) (hu : WritesAgain limit units)
    {file : SourceFile} : Repeats (IsWithin bound limit) (Alike like units pending pending')
      (scanFile (m := StateM World) table file) := by
  intro deferred first world first' world' h hwithin
  obtain ⟨fragments, middle, between, written, after, hprepare, hwrite, rfl⟩ :=
    ends_scanFile_iff.mp h
  obtain ⟨hlimit, hfollow⟩ := hu hwrite hwithin.2
  obtain ⟨hfirst, hagain⟩ := repeats_prepare hr _ _ _ _ _ hprepare ⟨hwithin.1, hlimit⟩
  refine ⟨hfirst, fun second later hl => ?_⟩
  obtain ⟨middle', between', hprepare', hl'⟩ := hagain second later hl
  obtain ⟨written', after', later', hwrite', hunits⟩ := hfollow _ _ hl'.units
  exact ⟨_, later', ends_scanFile_iff.mpr
    ⟨fragments, middle', between', written', after', hprepare', hwrite', rfl⟩,
    hl'.config_eq, hl'.registries, hl'.path_eq, hl'.pending, hunits⟩

/-- A scan is held again by a session that is alike. -/
theorem repeats_scanFiles (hr : Marker.Replays table bound like) (hu : WritesAgain limit units)
    {files : List SourceFile} : Repeats (IsWithin bound limit) (Alike like units pending pending')
      (scanFiles (m := StateM World) table files) := by
  induction files with
  | nil => exact repeats_pure
  | cons file files ih =>
    refine repeats_bind repeats_accepts fun accepted => ?_
    split
    · exact repeats_bind (repeats_scanFile hr hu) fun _ => repeats_bind ih fun _ => repeats_pure
    · exact ih

end Session

end PreviewShots
