import PreviewShots.Proofs.Resolution

/-!
# Types without gaps

A type resolves exactly if all of its parts are there, are no errors and have names. Such a
type is written with nothing in the place of what a type may lack, and so are those of the
parameters of a function that validates (`SymbolTable.validated_types_whole`).
-/

namespace PreviewShots

namespace Label

variable {label : Label}

theorem isCompound_of_isName (h : label.isName) : label.isCompound = false := by
  cases label <;> simp_all [isName, isCompound, text?, isScalar]

theorem isScalar_of_isName (h : label.isName) (ht : label.isTruthy = true) : label.isScalar := by
  have hc := isCompound_of_isName h
  simpa [isCompound, ht] using hc

end Label

namespace TypeRef

/-- A part of a type is the type itself, or what stands in an argument of a part; that may be
missing. A star has no part. -/
inductive HasPart (type : TypeRef) : Option TypeRef → Prop
  | self : HasPart type (some type)
  | argument {part : TypeRef} {variance : Label} {inner : Option TypeRef} :
      HasPart type (some part) → .projected variance inner ∈ part.arguments → HasPart type inner

/-- The part is no error and has a name, which can be looked up as every text can. -/
structure IsNamed (part : TypeRef) : Prop where
  sound : part.isError = false
  truthy : part.name.isTruthy = true
  scalar : part.name.isScalar = true

/-- No part is missing, and all are named. -/
def IsWhole (type : TypeRef) : Prop :=
  ∀ part, type.HasPart part → ∃ found, part = some found ∧ found.IsNamed

/-- What stands in the arguments is whole. -/
def AreWhole (arguments : List TypeArgument) : Prop :=
  ∀ variance inner, .projected variance inner ∈ arguments → ∃ type, inner = some type ∧ type.IsWhole

variable {type : TypeRef} {arguments : List TypeArgument}

-- ---------------------------------------------------------------------------
-- Parts
-- ---------------------------------------------------------------------------

theorem HasPart.trans {inner : TypeRef} {part : Option TypeRef} (h : type.HasPart (some inner))
    (h' : inner.HasPart part) : type.HasPart part := by
  induction h' with
  | self => exact h
  | argument _ hm ih => exact ih.argument hm

/-- A part is the type, or a part of what stands in one of its arguments. -/
theorem HasPart.cases_argument {part : Option TypeRef} (h : type.HasPart part) :
    part = some type ∨ ∃ variance inner, .projected variance inner ∈ type.arguments ∧
      (part = inner ∨ ∃ below, inner = some below ∧ below.HasPart part) := by
  induction h with
  | self => exact .inl rfl
  | argument _ hm ih =>
    refine .inr ?_
    rcases ih with hself | ⟨variance, inner, harg, hinner⟩
    · cases hself
      exact ⟨_, _, hm, .inl rfl⟩
    · refine ⟨variance, inner, harg, .inr ?_⟩
      rcases hinner with rfl | ⟨below, rfl, hbelow⟩
      · exact ⟨_, rfl, .argument .self hm⟩
      · exact ⟨below, rfl, hbelow.argument hm⟩

theorem isWhole_iff : type.IsWhole ↔ type.IsNamed ∧ AreWhole type.arguments := by
  constructor
  · intro h
    obtain ⟨found, hfound, hnamed⟩ := h _ .self
    cases hfound
    refine ⟨hnamed, fun variance inner hm => ?_⟩
    obtain ⟨below, rfl, -⟩ := h _ (.argument .self hm)
    exact ⟨below, rfl, fun part hpart => h part (.trans (.argument .self hm) hpart)⟩
  · rintro ⟨hnamed, harguments⟩ part hpart
    rcases hpart.cases_argument with rfl | ⟨variance, inner, hm, hinner⟩
    · exact ⟨type, rfl, hnamed⟩
    · obtain ⟨below, rfl, hbelow⟩ := harguments variance inner hm
      rcases hinner with rfl | ⟨other, hother, hpart⟩
      · exact hbelow _ .self
      · cases hother
        exact hbelow part hpart

/-- Names that are texts can all be looked up. -/
theorem isWhole_of_isName (hnames : ∀ part, type.HasPart (some part) → part.name.isName) :
    type.IsWhole ↔ ∀ part, type.HasPart part →
      ∃ found, part = some found ∧ found.isError = false ∧ found.name.isTruthy := by
  refine forall_congr' fun part => forall_congr' fun hpart => exists_congr fun found =>
    and_congr_right fun hfound => ?_
  subst hfound
  exact ⟨fun h => ⟨h.sound, h.truthy⟩,
    fun h => ⟨h.1, h.2, Label.isScalar_of_isName (hnames found hpart) h.2⟩⟩

@[simp] theorem areWhole_nil : AreWhole [] := by
  simp [AreWhole]

@[simp] theorem areWhole_star : AreWhole (.star :: arguments) ↔ AreWhole arguments := by
  simp [AreWhole]

theorem areWhole_projected {variance : Label} {inner : Option TypeRef} :
    AreWhole (.projected variance inner :: arguments) ↔
      (∃ type, inner = some type ∧ type.IsWhole) ∧ AreWhole arguments := by
  simp only [AreWhole, List.mem_cons]
  constructor
  · exact fun h => ⟨h _ _ (.inl rfl), fun variance inner hm => h variance inner (.inr hm)⟩
  · rintro ⟨hfirst, hrest⟩ other inner (hm | hm)
    · cases hm
      exact hfirst
    · exact hrest other inner hm

-- ---------------------------------------------------------------------------
-- What is written in gaps
-- ---------------------------------------------------------------------------

/-- What is written in the place of a name and of a type that are missing. -/
structure Gaps where
  name : Text
  type : Text

def Gaps.usual : Gaps := ⟨"Any", "*"⟩

mutual
def sourceWith (gaps : Gaps) (spell : Label → Text) : TypeRef → Text
  | ⟨name, arguments, nullable, _⟩ =>
    let named := if name.isTruthy then spell name else gaps.name
    let applied := if arguments.isEmpty then named
      else named ++ "<" ++ Text.joinWith ", " (argumentSourcesWith gaps spell arguments) ++ ">"
    if nullable then applied ++ "?" else applied
def argumentSourcesWith (gaps : Gaps) (spell : Label → Text) : List TypeArgument → List Text
  | [] => []
  | .star :: rest => "*" :: argumentSourcesWith gaps spell rest
  | .projected variance none :: rest =>
    argumentSources.projection variance gaps.type :: argumentSourcesWith gaps spell rest
  | .projected variance (some type) :: rest =>
    argumentSources.projection variance (type.sourceWith gaps spell) ::
      argumentSourcesWith gaps spell rest
end

mutual
theorem sourceWith_usual (spell : Label → Text) : ∀ type : TypeRef,
    type.sourceWith .usual spell = type.source spell
  | ⟨name, arguments, nullable, isError⟩ => by
    rw [sourceWith, source, argumentSourcesWith_usual spell arguments]
    rfl
theorem argumentSourcesWith_usual (spell : Label → Text) : ∀ arguments : List TypeArgument,
    argumentSourcesWith .usual spell arguments = argumentSources spell arguments
  | [] => by rw [argumentSourcesWith, argumentSources]
  | .star :: rest => by
    rw [argumentSourcesWith, argumentSources, argumentSourcesWith_usual spell rest]
  | .projected variance none :: rest => by
    rw [argumentSourcesWith, argumentSources, argumentSourcesWith_usual spell rest]
    rfl
  | .projected variance (some type) :: rest => by
    rw [argumentSourcesWith, argumentSources, sourceWith_usual spell type,
      argumentSourcesWith_usual spell rest]
end

mutual
/-- Nothing is written in the gaps of a type that has none. -/
theorem sourceWith_of_isWhole (gaps : Gaps) (spell : Label → Text) : ∀ type : TypeRef,
    type.IsWhole → type.sourceWith gaps spell = type.source spell
  | ⟨name, arguments, nullable, isError⟩, h => by
    obtain ⟨hnamed, harguments⟩ := isWhole_iff.mp h
    have htruthy : name.isTruthy = true := hnamed.truthy
    rw [sourceWith, source, argumentSourcesWith_of_areWhole gaps spell arguments harguments, htruthy]
    rfl
theorem argumentSourcesWith_of_areWhole (gaps : Gaps) (spell : Label → Text) :
    ∀ arguments : List TypeArgument, AreWhole arguments →
      argumentSourcesWith gaps spell arguments = argumentSources spell arguments
  | [], _ => by rw [argumentSourcesWith, argumentSources]
  | .star :: rest, h => by
    rw [argumentSourcesWith, argumentSources,
      argumentSourcesWith_of_areWhole gaps spell rest (areWhole_star.mp h)]
  | .projected variance none :: rest, h => by
    obtain ⟨⟨_, hnone, _⟩, -⟩ := areWhole_projected.mp h
    cases hnone
  | .projected variance (some type) :: rest, h => by
    obtain ⟨⟨_, hsome, htype⟩, hrest⟩ := areWhole_projected.mp h
    cases hsome
    rw [argumentSourcesWith, argumentSources, sourceWith_of_isWhole gaps spell type htype,
      argumentSourcesWith_of_areWhole gaps spell rest hrest]
end

end TypeRef

namespace SymbolTable

variable {table : SymbolTable}

-- ---------------------------------------------------------------------------
-- What resolves
-- ---------------------------------------------------------------------------

theorem found?_lookUpType_eq_true {type : TypeRef} :
    (table.lookUpType type).found?.map Option.isSome = some true ↔ type.IsNamed := by
  rw [found?_lookUpType]
  constructor
  · intro h
    split at h
    · cases h
    next hsound =>
    split at h
    · cases h
    · simp only [Option.some.injEq, Bool.and_eq_true] at h
      exact ⟨by simpa using hsound, h.1, h.2⟩
  · rintro ⟨hsound, htruthy, hscalar⟩
    simp [hsound, htruthy, hscalar, Label.isCompound]

mutual
theorem typeResolves_eq_true : ∀ type : TypeRef,
    (table.typeResolves type).found? = some true ↔ type.IsWhole
  | ⟨name, arguments, nullable, isError⟩ => by
    rw [TypeRef.isWhole_iff, ← @found?_lookUpType_eq_true table,
      ← argumentsResolve_eq_true arguments, typeResolves, Search.found?_bind]
    rcases (table.lookUpType ⟨name, arguments, nullable, isError⟩).found? with _ | _ | _ <;> simp
theorem argumentsResolve_eq_true : ∀ arguments : List TypeArgument,
    (table.argumentsResolve arguments).found? = some true ↔ TypeRef.AreWhole arguments
  | [] => by simp [argumentsResolve]
  | .star :: rest => by
    rw [TypeRef.areWhole_star, argumentsResolve, argumentsResolve_eq_true rest]
  | .projected _ none :: rest => by
    rw [TypeRef.areWhole_projected, argumentsResolve, Search.found?_bind]
    cases (table.argumentsResolve rest).found? <;> simp
  | .projected _ (some type) :: rest => by
    rw [TypeRef.areWhole_projected, ← argumentsResolve_eq_true rest, argumentsResolve,
      Search.found?_bind]
    rcases (table.argumentsResolve rest).found? with _ | _ | _
    · simp
    · simp
    · simpa using typeResolves_eq_true type
end

mutual
/-- Only at a name that is a list or an object there is no answer. -/
theorem exists_answer_of_typeResolves : ∀ type : TypeRef,
    (∀ part, type.HasPart (some part) → part.name.isCompound = false) →
      ∃ resolves, (table.typeResolves type).found? = some resolves
  | ⟨name, arguments, nullable, isError⟩, h => by
    obtain ⟨answer, hanswer⟩ := exists_answer_of_argumentsResolve arguments
      fun _ inner hm part hpart => h part (.trans (.argument .self hm) hpart)
    have hlook := found?_lookUpType table ⟨name, arguments, nullable, isError⟩
    rw [h _ .self] at hlook
    rw [typeResolves, Search.found?_bind]
    rcases hfound : (table.lookUpType ⟨name, arguments, nullable, isError⟩).found? with _ | _ | _
    · rw [hfound] at hlook
      split at hlook <;> cases hlook
    · exact ⟨false, rfl⟩
    · exact ⟨answer, hanswer⟩
theorem exists_answer_of_argumentsResolve : ∀ arguments : List TypeArgument,
    (∀ variance inner, .projected variance (some inner) ∈ arguments →
      ∀ part, inner.HasPart (some part) → part.name.isCompound = false) →
      ∃ resolve, (table.argumentsResolve arguments).found? = some resolve
  | [], _ => ⟨true, rfl⟩
  | .star :: rest, h => by
    rw [argumentsResolve]
    exact exists_answer_of_argumentsResolve rest
      fun variance inner hm => h variance inner (List.mem_cons_of_mem _ hm)
  | .projected _ none :: rest, h => by
    obtain ⟨answer, hanswer⟩ := exists_answer_of_argumentsResolve rest
      fun variance inner hm => h variance inner (List.mem_cons_of_mem _ hm)
    exact ⟨false, by rw [argumentsResolve, Search.found?_bind, hanswer]; rfl⟩
  | .projected variance (some type) :: rest, h => by
    obtain ⟨answer, hanswer⟩ := exists_answer_of_argumentsResolve rest
      fun variance inner hm => h variance inner (List.mem_cons_of_mem _ hm)
    rw [argumentsResolve, Search.found?_bind, hanswer]
    cases answer with
    | false => exact ⟨false, rfl⟩
    | true => exact exists_answer_of_typeResolves type (h variance type List.mem_cons_self)
end

theorem isWhole_of_validates {function : FunctionDecl}
    (h : (table.validates function).found? = some true) :
    ∀ p ∈ function.parameters, p.type.IsWhole := by
  intro p hp
  rw [validates] at h
  split at h
  · refine typeResolves_eq_true p.type |>.mp (Search.found?_all_eq_true.mp h _ ?_)
    exact List.mem_append_left _ (List.mem_map_of_mem hp)
  · cases h

/-- A type resolves just if it is whole. Of a type whose names are texts or missing it is always
told whether it does: just if all of its parts are there, are no errors and have names that
are not empty. The types of the parameters of a function that validates are written alike
whatever is put into gaps, as into those of any other type `Any` and a star are. -/
theorem validated_types_whole (table : SymbolTable) :
    (∀ type, ((table.typeResolves type).found? = some true ↔ type.IsWhole) ∧
      ((∀ part, type.HasPart (some part) → part.name.isName) →
        ∃ resolves, (table.typeResolves type).found? = some resolves ∧
          (resolves = true ↔ ∀ part, type.HasPart part →
            ∃ found, part = some found ∧ found.isError = false ∧ found.name.isTruthy))) ∧
    (∀ (type : TypeRef) spell, type.source spell = type.sourceWith .usual spell) ∧
    ∀ function, (table.validates function).found? = some true →
      ∀ p ∈ function.parameters, p.type.IsWhole ∧
        ∀ gaps spell, p.type.source spell = p.type.sourceWith gaps spell := by
  refine ⟨fun type => ⟨typeResolves_eq_true type, fun hnames => ?_⟩,
    fun type spell => (type.sourceWith_usual spell).symm, fun function h p hp => ?_⟩
  · obtain ⟨resolves, hresolves⟩ := exists_answer_of_typeResolves type fun part hpart =>
      Label.isCompound_of_isName (hnames part hpart)
    refine ⟨resolves, hresolves, ?_⟩
    rw [← TypeRef.isWhole_of_isName hnames, ← @typeResolves_eq_true table, hresolves,
      Option.some_inj]
  · have hwhole := isWhole_of_validates h p hp
    exact ⟨hwhole, fun gaps spell => (p.type.sourceWith_of_isWhole gaps spell hwhole).symm⟩

/-- A star, and an argument whose type may be missing. -/
def starMap (inner : Option TypeRef) : TypeRef where
  name := .string "kotlin.collections.Map"
  arguments := [.star, .projected (.string "out") inner]
  nullable := true
  isError := false

def itemType : TypeRef := ⟨.string "app.Item", [], false, false⟩

def starGallery : FunctionDecl where
  simpleName := .string "Gallery"
  package := .string "app"
  visibility := .isPublic
  annotations := []
  parameters := [⟨.string "items", starMap (some itemType), [], none⟩]
  returnType := none
  origin := .kotlin
  valid := true
  filePath := .string "Gallery.kt"

theorem starGallery_types_whole :
    (∀ part, (starMap (some itemType)).HasPart (some part) → part.name.isName) ∧
      ((⟨[], [], none⟩ : SymbolTable).validates starGallery).found? = some true ∧
      (∃ resolves, ((⟨[], [], none⟩ : SymbolTable).typeResolves (starMap (some itemType))).found? =
        some resolves) ∧
      ∀ p ∈ starGallery.parameters, p.type.IsWhole ∧
        ∀ gaps spell, p.type.source spell = p.type.sourceWith gaps spell := by
  obtain ⟨htypes, -, hfunctions⟩ := validated_types_whole ⟨[], [], none⟩
  have hnames : ∀ part, (starMap (some itemType)).HasPart (some part) → part.name.isName := by
    intro part hpart
    rcases hpart.cases_argument with hself | ⟨variance, inner, hm, hinner⟩
    · cases hself
      rfl
    obtain ⟨-, rfl⟩ : variance = .string "out" ∧ inner = some itemType := by
      simpa [starMap] using hm
    rcases hinner with hself | ⟨below, hbelow, hpart⟩
    · cases hself
      rfl
    · cases hbelow
      rcases hpart.cases_argument with hself | ⟨_, _, hm, -⟩
      · cases hself
        rfl
      · cases hm
  have hvalid : ((⟨[], [], none⟩ : SymbolTable).validates starGallery).found? = some true := by
    decide +kernel
  obtain ⟨resolves, hresolves, -⟩ := (htypes (starMap (some itemType))).2 hnames
  exact ⟨hnames, hvalid, ⟨resolves, hresolves⟩, hfunctions starGallery hvalid⟩

example : (starMap none).source Json.plain = "kotlin.collections.Map<*, out *>?" ∧
    (starMap none).sourceWith ⟨"Any", "missing"⟩ Json.plain =
      "kotlin.collections.Map<*, out missing>?" := by
  decide +kernel

end SymbolTable

end PreviewShots
