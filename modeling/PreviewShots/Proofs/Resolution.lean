import PreviewShots.Proofs.Label
import PreviewShots.Proofs.Search
import PreviewShots.Resolution

/-!
# What names resolve to

A name resolves to a class of its own key. The searches of a resolution find what
the resolved names say, and are stuck only at annotations whose types are lists or
objects; in a readable table there are none.
-/

namespace PreviewShots.SymbolTable

variable {table : SymbolTable}

/-- The classes of the source files, with or without a name. -/
def sourceClasses (table : SymbolTable) : List ClassDecl :=
  table.files.flatMap (·.classes)

/-- The annotation types that stand in the table are looked up without a fault. -/
structure IsReadable (table : SymbolTable) : Prop where
  declared : ∀ file ∈ table.files, ∀ decl ∈ file.declarations, ∀ a ∈ decl.annotations,
    a.typeName.isCompound = false
  classes : ∀ decl ∈ table.allClasses, ∀ a ∈ decl.annotations, a.typeName.isCompound = false

/-- The type resolves to a class of that name. -/
def ResolvesTo (table : SymbolTable) (type name : Label) : Prop :=
  ∃ decl, table.resolveName type = some decl ∧ decl.qualifiedName.equal name

theorem mem_sourceClasses {decl : ClassDecl} :
    decl ∈ table.sourceClasses ↔ ∃ file ∈ table.files, .ofClass decl ∈ file.declarations := by
  simp only [sourceClasses, List.mem_flatMap, SourceFile.classes, List.mem_filterMap]
  constructor
  · rintro ⟨file, hf, declaration, hd, hc⟩
    cases declaration with
    | function _ => simp [Declaration.class?] at hc
    | ofClass other =>
      obtain rfl : other = decl := by simpa [Declaration.class?] using hc
      exact ⟨file, hf, hd⟩
  · rintro ⟨file, hf, hd⟩
    exact ⟨file, hf, _, hd, rfl⟩

-- ---------------------------------------------------------------------------
-- Classes by name
-- ---------------------------------------------------------------------------

theorem class?_congr {left right : Label} (h : left.key = right.key) :
    table.class? left = table.class? right := by
  simp [class?, h]

theorem class?_key {name : Label} {decl : ClassDecl} (h : table.class? name = some decl) :
    decl.qualifiedName.key = name.key := by
  simpa using List.find?_some h

theorem class?_mem {name : Label} {decl : ClassDecl} (h : table.class? name = some decl) :
    decl ∈ table.allClasses :=
  List.mem_reverse.mp (List.mem_of_find?_eq_some h)

theorem resolveName_eq_some {name : Label} {decl : ClassDecl} :
    table.resolveName name = some decl ↔
      name.isTruthy ∧ name.isScalar ∧ (table.class? name).getD (.ofName name) = decl := by
  simp only [resolveName, Bool.and_eq_true]
  split
  · next h => simp [h.1, h.2]
  · next h => simpa using fun ht hs => (h ⟨ht, hs⟩).elim

theorem resolveName_key {name : Label} {decl : ClassDecl}
    (h : table.resolveName name = some decl) : decl.qualifiedName.key = name.key := by
  obtain ⟨_, _, rfl⟩ := resolveName_eq_some.mp h
  cases hc : table.class? name with
  | none => rfl
  | some decl => exact class?_key hc

theorem exists_resolveName {name : Label} (ht : name.isTruthy) (hs : name.isScalar) :
    ∃ decl, table.resolveName name = some decl :=
  ⟨_, resolveName_eq_some.mpr ⟨ht, hs, rfl⟩⟩

theorem isSome_resolveName (table : SymbolTable) (name : Label) :
    (table.resolveName name).isSome = (name.isTruthy && name.isScalar) := by
  rw [resolveName]
  split
  · next h => simp [h]
  · next h => simpa using h

/-- What a type resolves to is told by the type itself. -/
theorem resolvesTo_iff {type name : Label} :
    table.ResolvesTo type name ↔ type.isTruthy ∧ type.isScalar ∧ type.equal name := by
  have hequal {decl : ClassDecl} (hs : type.isScalar) (hr : table.resolveName type = some decl) :
      decl.qualifiedName.equal name = type.equal name :=
    (Label.equal_congr name hs (resolveName_key hr).symm).symm
  constructor
  · rintro ⟨decl, hr, he⟩
    obtain ⟨ht, hs, -⟩ := resolveName_eq_some.mp hr
    exact ⟨ht, hs, hequal hs hr ▸ he⟩
  · rintro ⟨ht, hs, he⟩
    obtain ⟨decl, hr⟩ := table.exists_resolveName ht hs
    exact ⟨decl, hr, (hequal hs hr).trans he⟩

/-- A class with annotations is not one of which only the name is known. -/
theorem class?_of_resolveName {name : Label} {decl : ClassDecl} {a : Annotation}
    (h : table.resolveName name = some decl) (ha : a ∈ decl.annotations) :
    table.class? name = some decl := by
  obtain ⟨_, _, rfl⟩ := resolveName_eq_some.mp h
  cases hc : table.class? name with
  | none => simp [hc, ClassDecl.ofName] at ha
  | some decl => rfl

-- ---------------------------------------------------------------------------
-- Searches
-- ---------------------------------------------------------------------------

theorem found?_lookUp (name : Label) :
    (table.lookUp name).found? =
      if name.isCompound then none else some (table.resolveName name) := by
  simp only [lookUp]
  split <;> rfl

/-- Whether a type can be looked up, and whether that finds a class, is told by the type. -/
theorem found?_lookUpType (table : SymbolTable) (type : TypeRef) :
    (table.lookUpType type).found?.map Option.isSome =
      if type.isError then some false
      else if type.name.isCompound then none
      else some (type.name.isTruthy && type.name.isScalar) := by
  simp only [lookUpType]
  split
  · rfl
  · rw [found?_lookUp]
    split
    · rfl
    · rw [Option.map_some, isSome_resolveName]

theorem found?_isNamed (name : Label) (a : Annotation) :
    (table.isNamed name a).found? = if a.typeName.isCompound then none
      else some ((table.resolveName a.typeName).any (·.qualifiedName.equal name)) := by
  simp only [isNamed, Search.found?_bind, found?_lookUp]
  split <;> rfl

theorem found?_isNamed_eq_true {name : Label} {a : Annotation} :
    (table.isNamed name a).found? = some true ↔ table.ResolvesTo a.typeName name := by
  rw [found?_isNamed, ResolvesTo]
  by_cases hc : a.typeName.isCompound
  · have hr : table.resolveName a.typeName = none := by
      simp_all [resolveName, Label.isCompound]
    simp [hc, hr]
  · simp [hc, Option.any_eq_true]

/-- What carrying comes to where it can be told. -/
theorem carries_iff {name : Label} {annotations : List Annotation} {carried : Bool}
    (h : (table.carries name annotations).found? = some carried) :
    carried = true ↔ ∃ a ∈ annotations, table.ResolvesTo a.typeName name := by
  simp only [carries, Search.found?_bind, Option.bind_eq_some_iff, Search.found?_pure,
    Option.some.injEq] at h
  obtain ⟨first, hf, rfl⟩ := h
  simp only [Search.isSome_of_find? hf, found?_isNamed_eq_true]

theorem exists_compound_of_carries {name : Label} {annotations : List Annotation}
    (h : (table.carries name annotations).found? = none) :
    ∃ a ∈ annotations, a.typeName.isCompound := by
  have hf : (Search.find? (table.isNamed name) annotations).found? = none := by
    cases hf : (Search.find? (table.isNamed name) annotations).found? with
    | none => rfl
    | some first => simp [carries, hf] at h
  obtain ⟨a, ha, hs⟩ := Search.exists_stuck_of_find? hf
  refine ⟨a, ha, ?_⟩
  rw [found?_isNamed] at hs
  split at hs
  · assumption
  · simp at hs

theorem mem_annotatedWith {name : Label} {carriers : List Declaration}
    (h : (table.annotatedWith name).found? = some carriers) {decl : Declaration} :
    decl ∈ carriers ↔ (∃ file ∈ table.files, decl ∈ file.declarations) ∧
      ∃ a ∈ decl.annotations, table.ResolvesTo a.typeName name := by
  rw [Search.mem_of_filter h, List.mem_flatMap]
  refine and_congr_right fun hm => ?_
  constructor
  · exact fun hc => (carries_iff hc).mp rfl
  · intro he
    obtain ⟨carried, hc⟩ := Search.exists_answer_of_filter h (List.mem_flatMap.mpr hm)
    rw [hc, (carries_iff hc).mpr he]

theorem not_isReadable_of_annotatedWith {name : Label}
    (h : (table.annotatedWith name).found? = none) : ¬ table.IsReadable := by
  intro hr
  obtain ⟨decl, hd, hs⟩ := Search.exists_stuck_of_filter h
  obtain ⟨file, hf, hd⟩ := List.mem_flatMap.mp hd
  obtain ⟨a, ha, hc⟩ := exists_compound_of_carries hs
  simp [hr.declared file hf decl hd a ha] at hc

end PreviewShots.SymbolTable
