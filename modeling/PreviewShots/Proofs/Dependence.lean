import Mathlib.Data.List.Basic
import PreviewShots.Proofs.Round

/-!
# What a file sees of a table

All that is planned for a file is read off the classes that the annotations of its functions
lead to. Tables that agree on these have the same plan for it (`Sees`), whatever else they
hold.
-/

namespace PreviewShots

variable {table other : SymbolTable} {config : Config}

-- ---------------------------------------------------------------------------
-- Soundness
-- ---------------------------------------------------------------------------

namespace SymbolTable

mutual
theorem found?_typeResolves (table other : SymbolTable) : (type : TypeRef) →
    (other.typeResolves type).found? = (table.typeResolves type).found?
  | ⟨name, arguments, nullable, isError⟩ => by
    have harguments := found?_argumentsResolve table other arguments
    have hsame := (found?_lookUpType other ⟨name, arguments, nullable, isError⟩).trans
      (found?_lookUpType table ⟨name, arguments, nullable, isError⟩).symm
    simp only [typeResolves, Search.found?_bind]
    rcases hl : (other.lookUpType ⟨name, arguments, nullable, isError⟩).found? with
      _ | _ | _ <;>
    rcases hr : (table.lookUpType ⟨name, arguments, nullable, isError⟩).found? with
      _ | _ | _ <;> simp_all
theorem found?_argumentsResolve (table other : SymbolTable) : (arguments : List TypeArgument) →
    (other.argumentsResolve arguments).found? = (table.argumentsResolve arguments).found?
  | [] => rfl
  | .star :: rest => by
    simpa only [argumentsResolve] using found?_argumentsResolve table other rest
  | .projected _ none :: rest => by
    simp only [argumentsResolve, Search.found?_bind, found?_argumentsResolve table other rest]
  | .projected _ (some type) :: rest => by
    simp only [argumentsResolve, Search.found?_bind, found?_argumentsResolve table other rest]
    refine Option.bind_congr fun resolves _ => ?_
    cases resolves with
    | true => exact found?_typeResolves table other type
    | false => rfl
end

/-- Whether a function is sound is told by the function. -/
theorem found?_validates (table other : SymbolTable) (function : FunctionDecl) :
    (other.validates function).found? = (table.validates function).found? := by
  simp only [validates]
  split
  · exact Search.found?_all_congr fun type _ => found?_typeResolves table other type
  · rfl

end SymbolTable

-- ---------------------------------------------------------------------------
-- Synthesis
-- ---------------------------------------------------------------------------

namespace Synthesis

/-- Whether an annotation is the provider is told by the annotation. -/
theorem found?_isProvider (table : SymbolTable) (config : Config) (a : Annotation) :
    (isProvider table config a).found? =
      if a.typeName.isCompound then none
      else if a.typeName.isTruthy then some (a.typeName.equal config.previewParameter)
      else if config.previewParameter.isName then
        some (a.shortName.equal (.string config.previewParameter.simple))
      else none := by
  simp only [isProvider, Search.found?_bind, SymbolTable.found?_lookUp]
  split
  · rfl
  next hcompound =>
  by_cases ht : a.typeName.isTruthy
  · have hs : a.typeName.isScalar := by simpa [Label.isCompound, ht] using hcompound
    obtain ⟨decl, hr⟩ := table.exists_resolveName ht hs
    simp [ht, hr, Label.equal_congr _ hs (SymbolTable.resolveName_key hr).symm]
  · have hnone : table.resolveName a.typeName = none := by simp [SymbolTable.resolveName, ht]
    simp only [hnone, ht, Option.bind_some, Bool.false_eq_true, ↓reduceIte]
    split <;> rfl

theorem found?_providersFrom (table other : SymbolTable) (config : Config) (index : Nat)
    (parameters : List Parameter) : (providersFrom other config index parameters).found? =
      (providersFrom table config index parameters).found? := by
  induction parameters generalizing index with
  | nil => rfl
  | cons parameter rest ih =>
    have hmark : (Search.find? (isProvider other config) parameter.annotations).found? =
        (Search.find? (isProvider table config) parameter.annotations).found? :=
      Search.found?_find?_congr fun a _ => (found?_isProvider other config a).trans (found?_isProvider table config a).symm
    simp only [providersFrom, Search.found?_bind, hmark, ih]

theorem provider?_eq (table other : SymbolTable) (config : Config) (function : FunctionDecl) :
    provider? other config function = provider? table config function := by
  simp only [provider?, providers, found?_providersFrom table other]

theorem mem_of_providersFrom {index : Nat} {parameters : List Parameter}
    {found : List Provider} (h : (providersFrom table config index parameters).found? = some found) :
    ∀ provider ∈ found, provider.parameter ∈ parameters ∧
      provider.mark ∈ provider.parameter.annotations := by
  induction parameters generalizing index found with
  | nil =>
    obtain rfl : [] = found := by simpa [providersFrom] using h
    simp
  | cons parameter rest ih =>
    simp only [providersFrom, Search.found?_bind, Option.bind_eq_some_iff, Search.found?_pure,
      Option.some.injEq] at h
    obtain ⟨mark, hmark, later, hlater, rfl⟩ := h
    intro provider hp
    rcases List.mem_append.mp hp with hp | hp
    · obtain ⟨a, rfl, rfl⟩ := Option.map_eq_some_iff.mp (Option.mem_toList.mp hp)
      exact ⟨List.mem_cons_self, Search.mem_of_find? hmark⟩
    · obtain ⟨hm, ha⟩ := ih hlater provider hp
      exact ⟨List.mem_cons_of_mem _ hm, ha⟩

/-- What is forwarded is a parameter of the function, and carries its mark. -/
theorem mem_of_provider? {function : FunctionDecl} {provider : Provider}
    (h : provider? table config function = some provider) :
    provider.parameter ∈ function.parameters ∧
      provider.mark ∈ provider.parameter.annotations := by
  obtain ⟨found, hfound, hhead⟩ := Option.bind_eq_some_iff.mp h
  exact mem_of_providersFrom hfound provider (List.mem_of_head? hhead)

theorem keptArguments_congr {a : Annotation}
    (h : other.resolveName a.typeName = table.resolveName a.typeName) :
    keptArguments other a = keptArguments table a := by
  have hdefaults : other.defaultsOf a = table.defaultsOf a := by
    simp only [SymbolTable.defaultsOf, h]
  simp only [keptArguments, isDefault, default?, hdefaults]

theorem typeName?_congr {a : Annotation}
    (h : other.resolveName a.typeName = table.resolveName a.typeName) :
    typeName? other a = typeName? table a := by
  simp only [typeName?, h]

theorem written_congr {a : Annotation} (h : typeName? other a = typeName? table a)
    (spelling : Spelling) (arguments : List Argument) :
    written spelling other a arguments = written spelling table a arguments := by
  simp only [written, h]

theorem writtenNames_congr {a : Annotation} (h : typeName? other a = typeName? table a)
    (arguments : List Argument) : writtenNames other a arguments = writtenNames table a arguments := by
  simp only [writtenNames, h]

/-- What the test of a function is written with: the classes of its markers, and the names of
its providers. -/
structure IsWrittenAlike (table other : SymbolTable) (eligible : Eligible) : Prop where
  markers : ∀ a ∈ eligible.markers, other.resolveName a.typeName = table.resolveName a.typeName
  parameters : ∀ parameter ∈ eligible.function.parameters, ∀ a ∈ parameter.annotations,
    typeName? other a = typeName? table a

section

variable {eligible : Eligible} (h : IsWrittenAlike table other eligible)
include h

theorem IsWrittenAlike.annotations (spelling : Spelling) (config : Config) :
    annotations spelling other config eligible.markers =
      annotations spelling table config eligible.markers := by
  refine congrArg (· ++ _) (List.map_congr_left fun a ha => ?_)
  rw [keptArguments_congr (h.markers a ha), written_congr (typeName?_congr (h.markers a ha))]

theorem IsWrittenAlike.annotationNames (config : Config) :
    annotationNames other config eligible.markers =
      annotationNames table config eligible.markers := by
  refine congrArg (· ++ _) (List.flatMap_congr fun a ha => ?_)
  rw [keptArguments_congr (h.markers a ha), writtenNames_congr (typeName?_congr (h.markers a ha))]

theorem IsWrittenAlike.typeName?_mark {config : Config}
    {provider : Provider} (hp : provider? table config eligible.function = some provider) :
    typeName? other provider.mark = typeName? table provider.mark :=
  let ⟨hm, ha⟩ := mem_of_provider? hp
  h.parameters provider.parameter hm _ ha

theorem IsWrittenAlike.signature (spelling : Spelling) (config : Config) :
    signature spelling other (provider? table config eligible.function) =
      signature spelling table (provider? table config eligible.function) := by
  cases hp : provider? table config eligible.function with
  | none => rfl
  | some provider =>
    simp only [Synthesis.signature, Option.map_some, declared, written_congr (h.typeName?_mark hp)]

theorem IsWrittenAlike.names (config : Config) :
    names other config eligible = names table config eligible := by
  simp only [Synthesis.names, h.annotationNames, provider?_eq table other]
  cases hp : provider? table config eligible.function with
  | none => rfl
  | some provider =>
    simp only [Option.map_some, declaredNames, writtenNames_congr (h.typeName?_mark hp)]

theorem IsWrittenAlike.fragment? (config : Config) :
    fragment? other config eligible = fragment? table config eligible := by
  have hfragment : fragment other config eligible = fragment table config eligible := by
    funext names
    simp only [fragment, text, provider?_eq table other, h.annotations, h.signature]
  simp only [Synthesis.fragment?, h.names, hfragment]

end

end Synthesis

-- ---------------------------------------------------------------------------
-- Tables that agree
-- ---------------------------------------------------------------------------

theorem Marker.edge_iff {key next : Key} : Edge table key next ↔
    ∃ name decl, name.key = key ∧ table.resolveName name = some decl ∧ ∃ a ∈ decl.annotations,
      a.typeName.isTruthy ∧ a.typeName.isScalar ∧ a.typeName.key = next := by
  constructor
  · rintro ⟨hr, ha, hf⟩
    obtain ⟨ht, hs, -⟩ := SymbolTable.resolveName_eq_some.mp hf
    exact ⟨_, _, rfl, hr, _, ha, ht, hs, (SymbolTable.resolveName_key hf).symm⟩
  · rintro ⟨name, decl, rfl, hr, a, ha, ht, hs, rfl⟩
    obtain ⟨found, hf⟩ := table.exists_resolveName ht hs
    exact SymbolTable.resolveName_key hf ▸ .mk hr ha hf

/-- The tables hold the same classes under the keys that are known. -/
structure SymbolTable.AgreeOn (known : Key → Prop) (table other : SymbolTable) : Prop where
  class_eq : ∀ name : Label, known name.key → other.class? name = table.class? name
  source_iff : ∀ decl : ClassDecl, known decl.qualifiedName.key →
    (decl ∈ other.sourceClasses ↔ decl ∈ table.sourceClasses)

namespace SymbolTable.AgreeOn

variable {known : Key → Prop} (h : AgreeOn known table other)
include h

theorem resolveName_eq {name : Label} (hk : known name.key) :
    other.resolveName name = table.resolveName name := by
  simp only [resolveName, h.class_eq name hk]

theorem edge_iff {key next : Key} (hk : known key) :
    Marker.Edge other key next ↔ Marker.Edge table key next := by
  rw [Marker.edge_iff, Marker.edge_iff]
  refine exists_congr fun name => exists_congr fun decl => and_congr_right ?_
  rintro rfl
  rw [h.resolveName_eq hk]

theorem isRoot_iff {base : Label} {key : Key} (hk : known key) :
    Marker.IsRoot other base key ↔ Marker.IsRoot table base key := by
  rw [Marker.isRoot_iff, Marker.isRoot_iff]
  refine or_congr_right (exists_congr fun decl => ?_)
  constructor
  · rintro ⟨hm, ht, ⟨a, ha, hr⟩, rfl⟩
    exact ⟨(h.source_iff decl hk).mp hm, ht, ⟨a, ha, resolvesTo_iff.mpr (resolvesTo_iff.mp hr)⟩, rfl⟩
  · rintro ⟨hm, ht, ⟨a, ha, hr⟩, rfl⟩
    exact ⟨(h.source_iff decl hk).mpr hm, ht, ⟨a, ha, resolvesTo_iff.mpr (resolvesTo_iff.mp hr)⟩, rfl⟩

/-- Whether a known name is a marker is told by what it leads to, if all of that is known. -/
theorem isMarker_iff {base : Label} {key : Key} (hk : known key)
    (hclosed : ∀ {key next}, known key → Marker.Edge table key next → known next) :
    Marker.IsMarker other base key ↔ Marker.IsMarker table base key := by
  constructor
  · intro hm
    induction hm with
    | root hr => exact .root ((h.isRoot_iff hk).mp hr)
    | edge he _ ih =>
      have he' := (h.edge_iff hk).mp he
      exact .edge he' (ih (hclosed hk he'))
  · intro hm
    induction hm with
    | root hr => exact .root ((h.isRoot_iff hk).mpr hr)
    | edge he _ ih => exact .edge ((h.edge_iff hk).mpr he) (ih (hclosed hk he))

end SymbolTable.AgreeOn

-- ---------------------------------------------------------------------------
-- Files
-- ---------------------------------------------------------------------------

/-- What the functions of the file are annotated with is known, and all that it leads to; the
tables agree on that, and on the names of the annotations of parameters. -/
structure SourceFile.Sees (file : SourceFile) (known : Key → Prop) (table other : SymbolTable) :
    Prop where
  agree : SymbolTable.AgreeOn known table other
  closed : ∀ {key next}, known key → Marker.Edge table key next → known next
  annotated : ∀ function ∈ file.functions, ∀ a ∈ function.annotations, known a.typeName.key
  named : ∀ function ∈ file.functions, ∀ parameter ∈ function.parameters,
    ∀ a ∈ parameter.annotations, Synthesis.typeName? other a = Synthesis.typeName? table a

namespace SourceFile.Sees

variable {file : SourceFile} {known : Key → Prop} (h : file.Sees known table other)
include h

theorem isMark_iff {a : Annotation} (hk : known a.typeName.key) :
    Plan.IsMark other config a ↔ Plan.IsMark table config a := by
  refine exists_congr fun decl => ?_
  rw [h.agree.resolveName_eq hk]
  refine and_congr_right fun hr => h.agree.isMarker_iff ?_ h.closed
  exact SymbolTable.resolveName_key hr ▸ hk

variable {function : FunctionDecl} (hf : function ∈ file.functions)
include hf

theorem isMarked_iff : Plan.IsMarked other config function ↔ Plan.IsMarked table config function :=
  exists_congr fun a => and_congr_right fun ha => h.isMark_iff (h.annotated function hf a ha)

theorem marks_eq :
    Plan.marks other config function.annotations = Plan.marks table config function.annotations :=
  List.filter_congr fun a ha =>
    decide_eq_decide.mpr (h.isMark_iff (h.annotated function hf a ha))

theorem isViolation_iff :
    Plan.IsViolation other config function ↔ Plan.IsViolation table config function :=
  and_congr_left fun _ => h.isMarked_iff hf

theorem isOffered_iff :
    Plan.IsOffered other config function ↔ Plan.IsOffered table config function := by
  have hopts : Plan.OptsOut other config function ↔ Plan.OptsOut table config function :=
    exists_congr fun a => and_congr_right fun _ =>
      SymbolTable.resolvesTo_iff.trans SymbolTable.resolvesTo_iff.symm
  simp only [Plan.IsOffered, h.isMarked_iff hf, hopts]

theorem isDeferred_iff :
    Plan.IsDeferred other config function ↔ Plan.IsDeferred table config function := by
  simp only [Plan.IsDeferred, h.isOffered_iff hf, SymbolTable.found?_validates table other]

theorem isEligible_iff :
    Plan.IsEligible other config function ↔ Plan.IsEligible table config function := by
  simp only [Plan.IsEligible, h.isOffered_iff hf, SymbolTable.found?_validates table other]

omit hf

theorem violationsOf_eq : Plan.violationsOf other config file.path file.functions =
    Plan.violationsOf table config file.path file.functions :=
  congrArg _ (List.filter_congr fun _ hf => decide_eq_decide.mpr (h.isViolation_iff hf))

theorem deferredOf_eq :
    Plan.deferredOf other config file.functions = Plan.deferredOf table config file.functions :=
  List.filter_congr fun _ hf => decide_eq_decide.mpr (h.isDeferred_iff hf)

theorem eligibleOf_eq : Plan.eligibleOf other config file file.functions =
    Plan.eligibleOf table config file file.functions := by
  rw [Plan.eligibleOf, Plan.eligibleOf,
    List.filter_congr fun _ hf => decide_eq_decide.mpr (h.isEligible_iff hf)]
  refine List.map_congr_left fun function hm => ?_
  rw [h.marks_eq (List.mem_of_mem_filter hm)]

theorem isWrittenAlike {eligible : Eligible}
    (he : eligible ∈ Plan.eligibleOf table config file file.functions) :
    Synthesis.IsWrittenAlike table other eligible := by
  obtain ⟨function, hm, rfl⟩ := List.mem_map.mp he
  have hf := List.mem_of_mem_filter hm
  refine ⟨fun a ha => h.agree.resolveName_eq ?_, h.named function hf⟩
  exact h.annotated function hf a (List.mem_of_mem_filter ha)

/-- The unit of the file. -/
theorem unitKey?_eq : Plan.unitKey? other config file = Plan.unitKey? table config file := by
  rw [Plan.unitKey?, Plan.unitKey?, h.eligibleOf_eq]

/-- The tests of the file. -/
theorem fragments_eq : Plan.fragments other config file = Plan.fragments table config file := by
  rw [Plan.fragments, Plan.fragments, h.eligibleOf_eq]
  exact List.filterMap_congr fun eligible he => (h.isWrittenAlike he).fragment? config

theorem unitText_eq (key : UnitKey) :
    Plan.unitText other config key file = Plan.unitText table config key file := by
  rw [Plan.unitText, Plan.unitText, h.fragments_eq]

end SourceFile.Sees

end PreviewShots
