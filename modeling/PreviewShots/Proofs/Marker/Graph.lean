import PreviewShots.Marker.Classification
import PreviewShots.Proofs.Resolution

/-!
# The graph of annotations

What it is to be a marker, apart from any walk or registry: the markers of a table
are the least set of names that holds the base marker and the source classes that
carry it, and with a name every name whose class carries an annotation of that name.
Names stand for their keys.
-/

namespace PreviewShots.Marker

variable {table : SymbolTable}

/-- From the name of a class to the name that one of its annotations resolves to. -/
inductive Edge (table : SymbolTable) : Key → Key → Prop
  | mk {name : Label} {decl found : ClassDecl} {a : Annotation} :
      table.resolveName name = some decl → a ∈ decl.annotations →
      table.resolveName a.typeName = some found → Edge table name.key found.qualifiedName.key

/-- The base marker, and each source class one declaration of which carries it. -/
inductive IsRoot (table : SymbolTable) (base : Label) : Key → Prop
  | base : IsRoot table base base.key
  | carries {decl : ClassDecl} {a : Annotation} :
      decl ∈ table.sourceClasses → decl.qualifiedName.isTruthy → a ∈ decl.annotations →
      table.ResolvesTo a.typeName base → IsRoot table base decl.qualifiedName.key

/-- The least set that holds the roots, and with a key every key from which an edge
leads there. -/
inductive Reaches (edge : Key → Key → Prop) (roots : Key → Prop) : Key → Prop
  | root {key : Key} : roots key → Reaches edge roots key
  | edge {key next : Key} : edge key next → Reaches edge roots next → Reaches edge roots key

def IsMarker (table : SymbolTable) (base : Label) : Key → Prop :=
  Reaches (Edge table) (IsRoot table base)

theorem isRoot_iff {base : Label} {key : Key} : IsRoot table base key ↔ key = base.key ∨
    ∃ decl ∈ table.sourceClasses, decl.qualifiedName.isTruthy ∧
      (∃ a ∈ decl.annotations, table.ResolvesTo a.typeName base) ∧
      decl.qualifiedName.key = key := by
  constructor
  · rintro (_ | ⟨hd, ht, ha, hr⟩)
    · exact .inl rfl
    · exact .inr ⟨_, hd, ht, ⟨_, ha, hr⟩, rfl⟩
  · rintro (rfl | ⟨decl, hd, ht, ⟨a, ha, hr⟩, rfl⟩)
    · exact .base
    · exact .carries hd ht ha hr

theorem Reaches.trans {edge : Key → Key → Prop} {roots others : Key → Prop} {key : Key}
    (h : Reaches edge roots key) (hroots : ∀ key, roots key → Reaches edge others key) :
    Reaches edge others key := by
  induction h with
  | root hk => exact hroots _ hk
  | edge he _ ih => exact .edge he ih

theorem Reaches.mono {edge edge' : Key → Key → Prop} {roots : Key → Prop} {key : Key}
    (h : Reaches edge roots key) (hedge : ∀ key next, edge key next → edge' key next) :
    Reaches edge' roots key := by
  induction h with
  | root hk => exact .root hk
  | edge he _ ih => exact .edge (hedge _ _ he) ih

-- ---------------------------------------------------------------------------
-- Annotations of a class
-- ---------------------------------------------------------------------------

theorem mem_edges {name target : Label} : target ∈ edges table name ↔
    ∃ decl, table.class? name = some decl ∧
      ∃ a ∈ decl.annotations, a.typeName.isTruthy ∧ a.typeName = target := by
  simp only [edges]
  cases hc : table.class? name with
  | none => simp
  | some decl =>
    simp only [List.mem_filter, List.mem_map, Option.some.injEq, exists_eq_left']
    constructor
    · rintro ⟨⟨a, ha, rfl⟩, ht⟩
      exact ⟨a, ha, ht, rfl⟩
    · rintro ⟨a, ha, ht, rfl⟩
      exact ⟨⟨a, ha, rfl⟩, ht⟩

theorem isTruthy_of_mem_edges {name target : Label} (h : target ∈ edges table name) :
    target.isTruthy := by
  obtain ⟨_, _, _, _, ht, rfl⟩ := mem_edges.mp h
  exact ht

theorem edge_of_mem_edges {name target : Label} (ht : name.isTruthy) (hs : name.isScalar)
    (h : target ∈ edges table name) (htarget : target.isScalar) :
    Edge table name.key target.key := by
  obtain ⟨decl, hc, a, ha, htype, rfl⟩ := mem_edges.mp h
  obtain ⟨found, hf⟩ := table.exists_resolveName htype htarget
  have hr : table.resolveName name = some decl :=
    SymbolTable.resolveName_eq_some.mpr ⟨ht, hs, by simp [hc]⟩
  exact SymbolTable.resolveName_key hf ▸ .mk hr ha hf

theorem exists_mem_edges {name : Label} {next : Key} (h : Edge table name.key next) :
    ∃ target ∈ edges table name, target.key = next := by
  generalize hk : name.key = key at h
  obtain ⟨hr, ha, hf⟩ := h
  have hc := SymbolTable.class?_of_resolveName hr ha
  rw [SymbolTable.class?_congr hk.symm] at hc
  obtain ⟨htype, _, _⟩ := SymbolTable.resolveName_eq_some.mp hf
  exact ⟨_, mem_edges.mpr ⟨_, hc, _, ha, htype, rfl⟩, (SymbolTable.resolveName_key hf).symm⟩

/-- In a readable table all annotations lead to names that can be looked up. -/
theorem isScalar_of_mem_edges (hr : table.IsReadable) {name target : Label}
    (h : target ∈ edges table name) : target.isScalar := by
  obtain ⟨decl, hc, a, ha, htype, rfl⟩ := mem_edges.mp h
  have hs := hr.classes decl (SymbolTable.class?_mem hc) a ha
  simpa [Label.isCompound, htype] using hs

/-- The keys that annotations of the table lead to, each annotation counted. -/
def targets (table : SymbolTable) : List Key :=
  (table.allClasses.flatMap (·.annotations)).map (·.typeName.key)

theorem length_targets : (targets table).length = edgeCount table := by
  simp [targets, edgeCount]

theorem key_mem_targets {name target : Label} (h : target ∈ edges table name) :
    target.key ∈ targets table := by
  obtain ⟨decl, hc, a, ha, _, rfl⟩ := mem_edges.mp h
  exact List.mem_map.mpr ⟨a, List.mem_flatMap.mpr ⟨decl, SymbolTable.class?_mem hc, ha⟩, rfl⟩

end PreviewShots.Marker
