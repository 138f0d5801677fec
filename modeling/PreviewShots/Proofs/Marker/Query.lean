import PreviewShots.Proofs.Marker.Verdict

/-!
# Queries and seeds

A query answers whether a walk from the name meets a marker, and settles what follows
from the registry it started with (`classify_asked`). Seeding makes the source classes
true that carry the base marker, and no other name (`seed_seeded`). Either fails only at
a name that cannot be looked up, and then leaves the registry as it was.
-/

namespace PreviewShots

variable {table : SymbolTable}

theorem SymbolTable.key_called (stubs : List Label) (name : Label) :
    (table.called stubs name).key = name.key := by
  simp only [called]
  cases hc : table.class? name with
  | some decl => exact class?_key hc
  | none =>
    cases hs : stubs.find? fun stub => stub.key = name.key with
    | none => rfl
    | some stub => simpa using List.find?_some hs

namespace Classifier

variable {α : Type}

/-- Notes change the names of library classes and nothing else. -/
@[simp] theorem registry_note (table : SymbolTable) (names : List Label) (classifier : Classifier) :
    (classifier.note table names).registry = classifier.registry := rfl

theorem run_search (search : Search α) (classifier : Classifier) (world : World) :
    (Classifier.search table search : Task (StateM World) Classifier α) classifier world =
      ((match search.found? with
        | some a => .ok a
        | none => .error .illTyped, classifier.note table search.names), world) := by
  simp only [Classifier.search, Task.run_bind, Task.run_modify]
  cases search.found? <;> rfl

end Classifier

namespace Marker

-- ---------------------------------------------------------------------------
-- Walks in a table
-- ---------------------------------------------------------------------------

section

variable {lookup : Label → Option Bool} {start : Label} {path : List Label}

/-- The walk from a name ends, as every annotation of the table is met once at most. -/
theorem walks_edges (table : SymbolTable) (lookup : Label → Option Bool) (name : Label) :
    ∃ through, Walks (edges table) lookup [[name]] [name] through
      (walkFrom (edges table) lookup (edgeCount table) name) :=
  length_targets ▸ walks_walkFrom (fun _ _ => key_mem_targets) name

theorem Trail.none {name : Label} (h : Trail (edges table) lookup start (name :: path)) :
    lookup name = none := by
  cases h <;> assumption

theorem Trail.resolves {name : Label} (h : Trail (edges table) lookup start (name :: path))
    (ht : start.isTruthy) (hs : start.isScalar) : name.isTruthy ∧ name.isScalar := by
  cases h with
  | start _ => exact ⟨ht, hs⟩
  | onward _ hm hscalar _ => exact ⟨isTruthy_of_mem_edges hm, hscalar⟩

theorem Trail.start_mem (h : Trail (edges table) lookup start path) : start ∈ path := by
  induction h with
  | start _ => exact List.mem_cons_self
  | onward _ _ _ _ ih => exact List.mem_cons_of_mem _ ih

end

variable {registry : MarkerRegistry}

/-- What the end of a trail leads to, all of the trail leads to. -/
theorem Trail.finds {start : Label} {path : List Label}
    (h : Trail (edges table) registry.lookup start path) (ht : start.isTruthy)
    (hs : start.isScalar) (hhead : ∀ name ∈ path.head?, Finds table registry name.key) :
    ∀ name ∈ path, Finds table registry name.key := by
  induction h with
  | start _ => simpa using hhead
  | @onward next name path htrail hm hscalar _ ih =>
    obtain ⟨htruthy, hname⟩ := htrail.resolves ht hs
    have hnext : Finds table registry next.key := hhead next rfl
    have hfinds : Finds table registry name.key :=
      .edge htrail.none (edge_of_mem_edges htruthy hname hm hscalar) hnext
    intro other ho
    rcases List.mem_cons.mp ho with rfl | ho
    · exact hnext
    · exact ih (by simpa using hfinds) other ho

/-- From names that are all surveyed no marker is found. -/
theorem not_finds_of_surveyed {seen : List Label}
    (h : Surveyed (edges table) registry.lookup [] seen) :
    ∀ name ∈ seen, ¬ Finds table registry name.key := by
  intro name hm hf
  generalize hk : name.key = key at hf
  induction hf generalizing name with
  | @known other hl =>
    rw [← MarkerRegistry.lookup_congr hk] at hl
    rcases h name hm with hs | ⟨hs, -⟩ <;> simp [hl] at hs
  | @edge other next hl he _ ih =>
    rw [← MarkerRegistry.lookup_congr hk] at hl
    rw [← hk] at he
    rcases h name hm with hs | ⟨-, ⟨_, hp⟩ | hall⟩
    · simp [hl] at hs
    · simp at hp
    · obtain ⟨target, ht, htarget⟩ := exists_mem_edges he
      obtain ⟨found, hfound, hkey⟩ := Label.has_iff.mp (hall target ht)
      exact ih found hfound (hkey.trans htarget)

/-- The answer tells whether the condition holds. There is none only where the name
or an annotation of the table cannot be looked up. -/
def Tells (table : SymbolTable) (name : Label) (result : Except Fault Bool) (condition : Prop) :
    Prop :=
  match result with
  | .ok answer => answer = true ↔ condition
  | .error fault => fault = .illTyped ∧ (name.isCompound ∨ ¬ table.IsReadable)

theorem Tells.congr {name : Label} {result : Except Fault Bool} {condition other : Prop}
    (h : Tells table name result condition) (hc : condition ↔ other) :
    Tells table name result other := by
  cases result with
  | ok answer => exact Iff.trans h hc
  | error fault => exact h

/-- What a query answers, and what it does to the registry. -/
structure Asked (table : SymbolTable) (name : Label) (before : MarkerRegistry)
    (result : Except Fault Bool) (after : MarkerRegistry) : Prop where
  settles : Settles table before after
  tells : Tells table name result (name.isTruthy ∧ Finds table before name.key)

/-- Keeping what a walk showed settles what follows. -/
theorem conclude_asked (name : Label) (classifier : Classifier) (world : World)
    (ht : name.isTruthy) (hs : name.isScalar) (hn : classifier.registry.lookup name = none) :
    ∃ result after, (conclude table (walkFrom (edges table) classifier.registry.lookup
        (edgeCount table) name) : Task (StateM World) Classifier Bool) classifier world =
          ((result, after), world) ∧
      Asked table name classifier.registry result after.registry := by
  obtain ⟨through, hw⟩ := walks_edges table classifier.registry.lookup name
  cases ho : walkFrom (edges table) classifier.registry.lookup (edgeCount table) name with
  | reached path seen =>
    obtain ⟨htrail, last, rest, rfl, target, hm, hscalar, hl⟩ :=
      hw.trail (by simpa using Trail.start hn) ho
    obtain ⟨htruthy, hlast⟩ := htrail.resolves ht hs
    have hfinds := htrail.finds ht hs (by
      intro other hother
      obtain rfl : last = other := by simpa using hother
      exact .edge htrail.none (edge_of_mem_edges htruthy hlast hm hscalar) (.known hl))
    refine ⟨.ok _, _, rfl, Settles.markAll fun other hother _ => ?_, ?_⟩
    · obtain ⟨name, hname, rfl⟩ := List.mem_map.mp hother
      rw [SymbolTable.key_called]
      simpa using hfinds name hname
    · simpa [Tells, ht] using hfinds name htrail.start_mem
  | exhausted seen =>
    obtain ⟨hsurvey, hstart⟩ := hw.survey (by
      intro other hother
      obtain rfl := List.mem_singleton.mp hother
      exact .inr ⟨hn, .inl ⟨[], by simp⟩⟩) ho
    have hnot := not_finds_of_surveyed hsurvey
    refine ⟨.ok _, _, rfl, Settles.markAll fun other hother _ => ?_, ?_⟩
    · obtain ⟨name, hname, rfl⟩ := List.mem_map.mp hother
      rw [SymbolTable.key_called]
      simpa using hnot name (List.mem_reverse.mp hname)
    · simpa [Tells] using fun _ => hnot name (hstart name (by simp))
  | stuck seen =>
    obtain ⟨other, target, hm, hcompound⟩ := hw.exists_compound ho
    refine ⟨.error _, _, rfl, .refl, rfl, .inr fun hr => ?_⟩
    simp [isScalar_of_mem_edges hr hm] at hcompound

theorem classify_asked (table : SymbolTable) (name : Label) (classifier : Classifier)
    (world : World) : ∃ result after,
      (classify table name : Task (StateM World) Classifier Bool) classifier world =
        ((result, after), world) ∧
      Asked table name classifier.registry result after.registry := by
  simp only [classify, Task.run_bind, Classifier.run_search, SymbolTable.found?_lookUp]
  rw [← Classifier.registry_note table (table.lookUp name).names classifier]
  generalize classifier.note table (table.lookUp name).names = noted
  by_cases hc : name.isCompound
  · exact ⟨.error .illTyped, noted, by simp [hc], .refl, rfl, .inl hc⟩
  cases hr : table.resolveName name with
  | none =>
    refine ⟨.ok false, noted, by simp [hc]; rfl, .refl, ?_⟩
    have hfalsy : ¬ name.isTruthy := by
      intro ht
      simp_all [SymbolTable.resolveName, Label.isCompound]
    simp [Tells, hfalsy]
  | some decl =>
    obtain ⟨ht, hs, -⟩ := SymbolTable.resolveName_eq_some.mp hr
    simp only [hc, Bool.false_eq_true, ↓reduceIte, Task.run_bind, Task.run_get]
    cases hl : noted.registry.lookup name with
    | some verdict =>
      refine ⟨.ok verdict, noted, rfl, .refl, ?_⟩
      rw [finds_iff, hl]
      simp [Tells, ht]
    | none => exact conclude_asked name noted world ht hs hl

-- ---------------------------------------------------------------------------
-- Seeding
-- ---------------------------------------------------------------------------

theorem promoteAll_promoted (hw : registry.WellFormed) (names : List Label) :
    MarkerRegistry.Promoted registry names (promoteAll registry names).1 := by
  induction names generalizing registry with
  | nil =>
    refine ⟨hw, rfl, fun other => ?_, fun other => id, .inl fun other => id⟩
    simp [promoteAll, Label.has]
  | cons name names ih =>
    exact (MarkerRegistry.Promoted.one hw name).trans (ih (hw.promote name))

/-- What seeding does to the registry: all roots are true, and nothing else changes
but that the false verdicts go when one of them became true. -/
structure Seeded (table : SymbolTable) (before : MarkerRegistry) (after : MarkerRegistry) :
    Prop where
  wellFormed : after.WellFormed
  base : after.base = before.base
  isTrue_iff : ∀ name : Label, after.lookup name = some true ↔
    before.lookup name = some true ∨ ∃ decl ∈ table.sourceClasses, decl.qualifiedName.isTruthy ∧
      (∃ a ∈ decl.annotations, table.ResolvesTo a.typeName before.base) ∧
      decl.qualifiedName.key = name.key
  isFalse : ∀ name, after.lookup name = some false → before.lookup name = some false
  kept_or_cleared : (∀ name, before.lookup name = some false → after.lookup name = some false) ∨
    (∃ name, before.lookup name = some false ∧ after.lookup name = some true) ∧
      ∀ name, after.lookup name ≠ some false

theorem Seeded.isTrue_iff_isRoot {before after : MarkerRegistry} (h : Seeded table before after)
    (hl : before.lookup before.base = some true) (name : Label) : after.lookup name = some true ↔
      before.lookup name = some true ∨ IsRoot table before.base name.key := by
  rw [h.isTrue_iff, isRoot_iff]
  constructor
  · exact Or.imp_right .inr
  · rintro (ht | hk | hcarries)
    · exact .inl ht
    · exact .inl (MarkerRegistry.lookup_congr hk ▸ hl)
    · exact .inr hcarries

theorem mem_classNames {declarations : List Declaration} {name : Label} :
    name ∈ classNames declarations ↔ ∃ decl, .ofClass decl ∈ declarations ∧
      decl.qualifiedName.isTruthy ∧ decl.qualifiedName = name := by
  simp only [classNames, List.mem_filter, List.mem_filterMap, Option.map_eq_some_iff]
  constructor
  · rintro ⟨⟨declaration, hm, decl, hc, rfl⟩, ht⟩
    cases declaration with
    | function _ => simp [Declaration.class?] at hc
    | ofClass other =>
      obtain rfl : other = decl := by simpa [Declaration.class?] using hc
      exact ⟨other, hm, ht, rfl⟩
  · rintro ⟨decl, hm, ht, rfl⟩
    exact ⟨⟨_, hm, decl, rfl, rfl⟩, ht⟩

/-- A seed that ends has seeded the registry; one that does not has left it as it was. -/
theorem seed_seeded (table : SymbolTable) (classifier : Classifier) (world : World)
    (hw : classifier.registry.WellFormed) : ∃ result after,
      (seed table : Task (StateM World) Classifier Nat) classifier world =
        ((result, after), world) ∧
      (∀ count, result = .ok count → Seeded table classifier.registry after.registry) ∧
      (∀ fault, result = .error fault → after.registry = classifier.registry ∧
        fault = .illTyped ∧ ¬ table.IsReadable) := by
  simp only [seed, Task.run_bind, Task.run_get, Classifier.run_search]
  cases hs : (table.annotatedWith classifier.registry.base).found? with
  | none =>
    refine ⟨_, _, rfl, ?_, ?_⟩
    · rintro _ ⟨⟩
    · rintro _ ⟨⟩
      exact ⟨rfl, rfl, SymbolTable.not_isReadable_of_annotatedWith hs⟩
  | some carriers =>
    refine ⟨_, _, rfl, ?_, ?_⟩
    · rintro _ ⟨⟩
      have hp := promoteAll_promoted hw (classNames carriers)
      refine ⟨hp.wellFormed, hp.base, fun name => ?_, hp.isFalse, hp.kept_or_cleared⟩
      refine (hp.isTrue_iff name).trans (or_congr_right ?_)
      simp only [Label.has_iff, mem_classNames, SymbolTable.mem_annotatedWith hs,
        SymbolTable.mem_sourceClasses]
      constructor
      · rintro ⟨_, ⟨decl, ⟨hfile, ha⟩, ht, rfl⟩, hk⟩
        exact ⟨decl, hfile, ht, ha, hk⟩
      · rintro ⟨decl, hfile, ht, ha, hk⟩
        exact ⟨_, ⟨decl, ⟨hfile, ha⟩, ht, rfl⟩, hk⟩
    · rintro _ ⟨⟩

end Marker

end PreviewShots
