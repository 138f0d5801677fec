import PreviewShots.Proofs.Marker.Query

/-!
# Verdicts over several rounds

One classifier serves rounds with tables of their own. Whatever happens to it, the
base marker stays true, what is true stays so, and each true name is linked to the
base marker by annotations of the tables so far. A round whose seed turns a false
verdict drops all false ones, and then answers by what is true right after the seed.
-/

namespace PreviewShots.Marker

/-- A round begins with a table, or a name is asked for in the table of the round. -/
inductive Event where
  | begins (table : SymbolTable)
  | asks (name : Label)

/-- A classifier at work, and the tables of its rounds, latest first. -/
structure Stage where
  tables : List SymbolTable
  classifier : Classifier
  world : World

/-- The start of a round: nothing is known of its table, and its markers are seeded. -/
def begin {m : Type → Type} [Monad m] (table : SymbolTable) : Task m Classifier Nat := do
  modify fun classifier => { classifier with stubs := [] }
  seed table

namespace Stage

def fresh (base : Label) (world : World) : Stage := ⟨[], .ofBase base, world⟩

def registry (stage : Stage) : MarkerRegistry := stage.classifier.registry

/-- The stage that a task leaves behind, be it by a fault. -/
def leave {α : Type} (stage : Stage) (task : Task (StateM World) Classifier α) : Stage :=
  let ((_, classifier), world) := task stage.classifier stage.world
  { stage with classifier, world }

def next (stage : Stage) : Event → Stage
  | .begins table => { stage.leave (begin table) with tables := table :: stage.tables }
  | .asks name => match stage.tables with
    | [] => stage
    | table :: _ => stage.leave (classify table name)

def after (stage : Stage) (events : List Event) : Stage :=
  events.foldl next stage

/-- What a query in the table would be answered. -/
def answer (stage : Stage) (table : SymbolTable) (name : Label) : Except Fault Bool :=
  ((classify table name : Task (StateM World) Classifier Bool) stage.classifier stage.world).1.1

end Stage

-- ---------------------------------------------------------------------------
-- One event
-- ---------------------------------------------------------------------------

variable {stage : Stage} {table : SymbolTable} {base : Label}

theorem Stage.begins (hw : stage.registry.WellFormed) (table : SymbolTable) :
    Seeded table stage.registry (stage.next (.begins table)).registry ∨
      (stage.next (.begins table)).registry = stage.registry ∧ ¬ table.IsReadable := by
  obtain ⟨result, after, hrun, hok, herror⟩ :=
    seed_seeded table { stage.classifier with stubs := [] } stage.world hw
  have hnext : (stage.next (.begins table)).registry = after.registry := by
    simp [Stage.next, Stage.leave, Stage.registry, begin, Task.run_bind, Task.run_modify, hrun]
  rw [hnext]
  cases result with
  | ok count => exact .inl (hok count rfl)
  | error fault =>
    obtain ⟨hregistry, -, hreadable⟩ := herror fault rfl
    exact .inr ⟨hregistry, hreadable⟩

theorem Stage.asks {tables : List SymbolTable} (ht : stage.tables = table :: tables)
    (name : Label) : Settles table stage.registry (stage.next (.asks name)).registry := by
  obtain ⟨result, after, hrun, hasked⟩ := classify_asked table name stage.classifier stage.world
  have hnext : (stage.next (.asks name)).registry = after.registry := by
    simp [Stage.next, Stage.leave, Stage.registry, ht, hrun]
  rw [hnext]
  exact hasked.settles

theorem Stage.tables_asks (stage : Stage) (names : List Label) :
    (stage.after (names.map .asks)).tables = stage.tables := by
  induction names generalizing stage with
  | nil => rfl
  | cons name names ih =>
    refine (ih _).trans ?_
    simp only [Stage.next]
    split <;> rfl

/-- All queries of a round together settle what follows from its first registry. -/
theorem Stage.asks_all {tables : List SymbolTable} (ht : stage.tables = table :: tables)
    (names : List Label) :
    Settles table stage.registry (stage.after (names.map .asks)).registry := by
  induction names generalizing stage with
  | nil => exact .refl
  | cons name names ih =>
    have hnext : (stage.next (.asks name)).tables = table :: tables :=
      (Stage.tables_asks stage [name]).trans ht
    exact (Stage.asks ht name).trans (ih hnext)

theorem Stage.answer_tells (stage : Stage) (table : SymbolTable) (name : Label) :
    Tells table name (stage.answer table name)
      (name.isTruthy ∧ Finds table stage.registry name.key) := by
  obtain ⟨result, after, hrun, hasked⟩ := classify_asked table name stage.classifier stage.world
  simpa [Stage.answer, Stage.registry, hrun] using hasked.tells

/-- The answers of a round depend on the registry it starts from, and on no query. -/
theorem Stage.answer_asks_tells (stage : Stage) {tables : List SymbolTable}
    (ht : stage.tables = table :: tables) (names : List Label) (name : Label) :
    Tells table name ((stage.after (names.map .asks)).answer table name)
      (name.isTruthy ∧ Finds table stage.registry name.key) :=
  (Stage.answer_tells _ table name).congr
    (and_congr_right fun _ => (Stage.asks_all ht names).finds_iff)

-- ---------------------------------------------------------------------------
-- All events
-- ---------------------------------------------------------------------------

/-- A class declaration of the table, hidden by another one or not, has an annotation
that resolves to the next name. -/
inductive Carries (table : SymbolTable) : Key → Key → Prop
  | mk {decl found : ClassDecl} {a : Annotation} : decl ∈ table.allClasses →
      a ∈ decl.annotations → table.resolveName a.typeName = some found →
      Carries table decl.qualifiedName.key found.qualifiedName.key

theorem Edge.carries {key next : Key} (h : Edge table key next) : Carries table key next := by
  obtain ⟨hname, ha, hfound⟩ := h
  have hc := SymbolTable.class?_of_resolveName hname ha
  exact SymbolTable.class?_key hc ▸ .mk (SymbolTable.class?_mem hc) ha hfound

/-- A chain of annotations, each from one of the tables, leads to the base marker. -/
def Linked (tables : List SymbolTable) (base : Label) : Key → Prop :=
  Reaches (fun key next => ∃ table ∈ tables, Carries table key next) (· = base.key)

/-- What holds of a stage whatever led to it. -/
structure Sound (base : Label) (stage : Stage) : Prop where
  wellFormed : stage.registry.WellFormed
  base_eq : stage.registry.base = base
  isTrue : stage.registry.lookup base = some true
  linked : ∀ name, stage.registry.lookup name = some true → Linked stage.tables base name.key

theorem Sound.fresh (base : Label) (world : World) : Sound base (.fresh base world) := by
  refine ⟨.ofBase base, rfl, ?_, fun name hl => ?_⟩
  · simp [Stage.fresh, Stage.registry, Classifier.ofBase, MarkerRegistry.lookup_ofBase]
  · simp only [Stage.fresh, Stage.registry, Classifier.ofBase,
      MarkerRegistry.lookup_ofBase] at hl
    split at hl
    · next hk => exact .root hk
    · simp at hl

theorem Linked.cons {tables : List SymbolTable} {key : Key} (h : Linked tables base key)
    (table : SymbolTable) : Linked (table :: tables) base key :=
  h.mono fun _ _ ⟨other, hm, hc⟩ => ⟨other, List.mem_cons_of_mem _ hm, hc⟩

theorem Sound.begins (h : Sound base stage) (table : SymbolTable) :
    Sound base (stage.next (.begins table)) := by
  rcases Stage.begins h.wellFormed table with hs | ⟨heq, -⟩
  · refine ⟨hs.wellFormed, hs.base.trans h.base_eq, (hs.isTrue_iff base).mpr (.inl h.isTrue), ?_⟩
    intro name hl
    rcases (hs.isTrue_iff name).mp hl with hl | ⟨decl, hd, ht, ⟨a, ha, found, hf, he⟩, hk⟩
    · exact (h.linked name hl).cons table
    · have hall : decl ∈ table.allClasses :=
        List.mem_filter.mpr ⟨List.mem_append_right _ hd, ht⟩
      refine hk ▸ .edge ⟨table, List.mem_cons_self, .mk hall ha hf⟩ (.root ?_)
      exact h.base_eq ▸ Label.key_eq_of_equal he
  · exact ⟨heq ▸ h.wellFormed, heq ▸ h.base_eq, heq ▸ h.isTrue,
      fun name hl => (h.linked name (heq ▸ hl)).cons table⟩

theorem Sound.asks (h : Sound base stage) (name : Label) :
    Sound base (stage.next (.asks name)) := by
  have htables : (stage.next (.asks name)).tables = stage.tables :=
    Stage.tables_asks stage [name]
  rcases ht : stage.tables with _ | ⟨table, tables⟩
  · simpa [Stage.next, ht] using h
  · have hs := Stage.asks ht name
    refine ⟨hs.wellFormed h.wellFormed, hs.base.trans h.base_eq, hs.kept _ _ h.isTrue, ?_⟩
    intro other hl
    rw [htables]
    have hfinds : Finds table stage.registry other.key := hs.finds_iff.mp (.known hl)
    refine (hfinds.reaches.mono ?_).trans ?_
    · exact fun key next he => ⟨table, by simp [ht], he.carries⟩
    · rintro key ⟨known, rfl, hknown⟩
      exact h.linked known hknown

theorem Sound.next (h : Sound base stage) (event : Event) : Sound base (stage.next event) := by
  cases event with
  | begins table => exact h.begins table
  | asks name => exact h.asks name

theorem Sound.after (h : Sound base stage) (events : List Event) :
    Sound base (stage.after events) := by
  induction events generalizing stage with
  | nil => exact h
  | cons event events ih => exact ih (h.next event)

theorem Sound.kept_next (h : Sound base stage) (event : Event) {name : Label}
    (hl : stage.registry.lookup name = some true) :
    (stage.next event).registry.lookup name = some true := by
  cases event with
  | begins table =>
    rcases Stage.begins h.wellFormed table with hs | ⟨heq, -⟩
    · exact (hs.isTrue_iff name).mpr (.inl hl)
    · exact heq ▸ hl
  | asks asked =>
    rcases ht : stage.tables with _ | ⟨table, tables⟩
    · simpa [Stage.next, ht] using hl
    · exact (Stage.asks ht asked).kept _ _ hl

theorem Sound.kept (h : Sound base stage) (events : List Event) {name : Label}
    (hl : stage.registry.lookup name = some true) :
    (stage.after events).registry.lookup name = some true := by
  induction events generalizing stage with
  | nil => exact hl
  | cons event events ih => exact ih (h.next event) (h.kept_next event hl)

-- ---------------------------------------------------------------------------
-- A round that begins
-- ---------------------------------------------------------------------------

/-- A false verdict is left after a seed if it was there before and none was turned. -/
theorem Stage.isFalse_begins (hw : stage.registry.WellFormed) (table : SymbolTable) (name : Label) :
    (stage.next (.begins table)).registry.lookup name = some false ↔
      stage.registry.lookup name = some false ∧ ¬ ∃ turned,
        stage.registry.lookup turned = some false ∧
          (stage.next (.begins table)).registry.lookup turned = some true := by
  rcases Stage.begins hw table with hs | ⟨heq, -⟩
  · rcases hs.kept_or_cleared with hkept | ⟨hturned, hclear⟩
    · refine ⟨fun h => ⟨hs.isFalse name h, ?_⟩, fun h => hkept name h.1⟩
      rintro ⟨turned, hf, ht⟩
      simp [hkept turned hf] at ht
    · exact ⟨fun h => absurd h (hclear name), fun h => absurd hturned h.2⟩
  · rw [heq]
    refine ⟨fun h => ⟨h, ?_⟩, And.left⟩
    rintro ⟨turned, hf, ht⟩
    simp [hf] at ht

/-- In every stage that any rounds lead to the base marker is true, each true name is
linked to it by the tables so far, and true names stay true. When the seed of a round
turns a false name true, no name is false right after it, and whatever is asked in the
round is answered by whether annotations of its table lead to a name true by then. -/
theorem rounds_sound (base : Label) (world : World) (events : List Event) :
    let stage := (Stage.fresh base world).after events
    stage.registry.lookup base = some true ∧
    (∀ name, stage.registry.lookup name = some true →
      Linked stage.tables base name.key ∧
        ∀ later, (stage.after later).registry.lookup name = some true) ∧
    ∀ table, let seeded := stage.next (.begins table)
      (∃ turned, stage.registry.lookup turned = some false ∧
        seeded.registry.lookup turned = some true) →
      (∀ name, seeded.registry.lookup name ≠ some false) ∧
        ∀ (names : List Label) name,
          Tells table name ((seeded.after (names.map .asks)).answer table name)
          (name.isTruthy ∧ Reaches (Edge table) (Known seeded.registry) name.key) := by
  intro stage
  have hsound : Sound base stage := (Sound.fresh base world).after events
  refine ⟨hsound.isTrue, fun name hl => ⟨hsound.linked name hl, ?_⟩, ?_⟩
  · exact fun later => hsound.kept later hl
  intro table seeded hturned
  have hfree : ∀ name, seeded.registry.lookup name ≠ some false := by
    intro name hf
    exact ((Stage.isFalse_begins hsound.wellFormed table name).mp hf).2 hturned
  refine ⟨hfree, fun names name => ?_⟩
  refine (Stage.answer_asks_tells seeded rfl names name).congr ?_
  refine and_congr_right fun _ => ⟨Finds.reaches, fun hr => ?_⟩
  exact finds_of_reaches hr (fun _ hk => hk) fun other _ => hfree other

/-- An annotation class that carries annotations of the names. -/
def annotationClass (name : Text) (carried : List Text) : ClassDecl :=
  ⟨.string name, .annotationClass, carried.map .ofName, [], .kotlin, .null⟩

def ofClasses (classes : List ClassDecl) : SymbolTable :=
  ⟨[⟨.string "A.kt", .null, .kotlin, classes.map .ofClass⟩], [], none⟩

/-- A stage at which `Wide` was asked for and found to be no marker. -/
def askedWide : Stage :=
  (Stage.fresh (.string "Preview") (.ofFiles .empty)).after
    [.begins (ofClasses [annotationClass "Wide" ["Theme"], annotationClass "Theme" []]),
      .asks (.string "Wide")]

-- `Theme` was found to be no marker as well, and now carries the base marker.
example :
    let seeded := askedWide.next
      (.begins (ofClasses [annotationClass "Wide" ["Theme"], annotationClass "Theme" ["Preview"]]))
    askedWide.registry.lookup (.string "Theme") = some false ∧
      seeded.registry.lookup (.string "Theme") = some true := by
  decide

-- ---------------------------------------------------------------------------
-- Verdicts that went stale
-- ---------------------------------------------------------------------------

/-- The later table has every class of the earlier one, with all its annotations. -/
def Extends (earlier later : SymbolTable) : Prop :=
  ∀ decl ∈ earlier.allClasses, ∃ found ∈ later.allClasses,
    found.qualifiedName = decl.qualifiedName ∧ decl.annotations ⊆ found.annotations

/-- The classes from which annotations of the table lead to the base marker. -/
def Leads (table : SymbolTable) (base : Label) : Key → Prop :=
  Reaches (Edge table) (· = base.key)

theorem Leads.resolves {name : Label} (h : Leads table base name.key) :
    name.key = base.key ∨
      ∃ other : Label, other.key = name.key ∧ other.isTruthy ∧ other.isScalar := by
  generalize hk : name.key = key at h
  cases h with
  | root hb => exact .inl hb
  | edge he _ =>
    obtain ⟨hname, -, -⟩ := he
    obtain ⟨ht, hs, -⟩ := SymbolTable.resolveName_eq_some.mp hname
    exact .inr ⟨_, rfl, ht, hs⟩

/-- A name that is settled is answered by its verdict. -/
theorem Stage.answer_settled {name : Label} {verdict : Bool} (ht : name.isTruthy)
    (hs : name.isScalar) (hl : stage.registry.lookup name = some verdict) (table : SymbolTable) :
    stage.answer table name = .ok verdict := by
  obtain ⟨decl, hr⟩ := table.exists_resolveName ht hs
  have hc : name.isCompound = false := by simp [Label.isCompound, hs]
  have hl' : stage.classifier.registry.lookup name = some verdict := hl
  simp only [Stage.answer, classify, Task.run_bind, Classifier.run_search,
    SymbolTable.found?_lookUp, hc, hr]
  simp [Task.run_bind, Task.run_get, hl']
  rfl

/-- The classes that lead to the base marker are told to be markers, whatever was asked
in the round, just if none of them was false before its seed or the seed turned a false
name. In a readable table it turns the false names that carry the base marker. -/
theorem leads_told_iff (base : Label) (world : World) (events : List Event) (table : SymbolTable) :
    let stage := (Stage.fresh base world).after events
    let seeded := stage.next (.begins table)
    ((∀ (names : List Label) name, name.isTruthy → Leads table base name.key →
        Tells table name ((seeded.after (names.map .asks)).answer table name) True) ↔
      ∀ name : Label, Leads table base name.key → stage.registry.lookup name = some false →
        ∃ turned, stage.registry.lookup turned = some false ∧
          seeded.registry.lookup turned = some true) ∧
    (table.IsReadable → ∀ name, stage.registry.lookup name = some false →
      (seeded.registry.lookup name = some true ↔ IsRoot table base name.key)) := by
  intro stage seeded
  have hsound : Sound base stage := (Sound.fresh base world).after events
  have hbase : seeded.registry.lookup base = some true := (hsound.begins table).isTrue
  have hstale := Stage.isFalse_begins hsound.wellFormed table
  refine ⟨⟨fun htold name hleads hf => ?_, fun hturned names name ht hleads => ?_⟩,
    fun hreadable name hf => ?_⟩
  · -- otherwise the false verdict survives, and answers the query
    refine Classical.byContradiction fun hnone => ?_
    have hf' := (hstale name).mpr ⟨hf, hnone⟩
    rcases hleads.resolves with hk | ⟨other, hk, ht, hs⟩
    · rw [MarkerRegistry.lookup_congr hk] at hf'
      simp [seeded, hf'] at hbase
    · have hanswer := Stage.answer_settled ht hs (MarkerRegistry.lookup_congr hk ▸ hf') table
      have htells := htold [] other ht (hk ▸ hleads)
      simp [Stage.after, seeded, hanswer, Tells] at htells
  · refine (Stage.answer_asks_tells seeded rfl names name).congr ?_
    refine iff_true_intro ⟨ht, finds_of_reaches hleads (fun key hk => ?_) fun other ho hf => ?_⟩
    · exact ⟨base, hk.symm, hbase⟩
    · obtain ⟨hf, hnone⟩ := (hstale other).mp hf
      exact hnone (hturned other ho hf)
  · rcases Stage.begins hsound.wellFormed table with hs | ⟨-, hnot⟩
    · have hroot := hs.isTrue_iff_isRoot (hsound.base_eq ▸ hsound.isTrue) name
      rw [hsound.base_eq] at hroot
      rw [hroot, hf]
      simp
    · exact absurd hreadable hnot

def darkTheme : SymbolTable :=
  ofClasses [annotationClass "Wide" ["Theme"], annotationClass "Theme" ["Dark"],
    annotationClass "Dark" ["Preview"]]

/-- `Dark` is new and its seed turns no verdict, so `Theme` and `Wide` stay false. -/
theorem stale_wide : (∀ table ∈ askedWide.tables, Extends table darkTheme) ∧
    Leads darkTheme (.string "Preview") (Label.key (.string "Wide")) ∧
    (askedWide.next (.begins darkTheme)).answer darkTheme (.string "Wide") = .ok false := by
  have hedge : ∀ name target : Text, edges darkTheme (.string name) = [.string target] →
      (Json.string name).isTruthy → (Json.string target).isTruthy →
      Edge darkTheme (Label.key (.string name)) (Label.key (.string target)) := by
    intro name target he hn ht
    exact edge_of_mem_edges hn rfl (he ▸ List.mem_singleton_self _) rfl
  refine ⟨?_, ?_, rfl⟩
  · intro table htable decl hd
    obtain rfl : table = _ := List.mem_singleton.mp htable
    rcases hd with _ | ⟨_, _ | ⟨_, h⟩⟩
    · exact ⟨_, .head _, rfl, List.Subset.refl _⟩
    · exact ⟨_, .tail _ (.head _), rfl, List.nil_subset _⟩
    · cases h
  · exact .edge (hedge "Wide" "Theme" rfl rfl rfl) <| .edge (hedge "Theme" "Dark" rfl rfl rfl) <|
      .edge (hedge "Dark" "Preview" rfl rfl rfl) <| .root rfl

end PreviewShots.Marker
