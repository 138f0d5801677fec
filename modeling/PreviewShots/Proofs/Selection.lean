import PreviewShots.Proofs.Marker.Answers
import PreviewShots.Proofs.Round

/-!
# Selection by the plan

A classifier that knows the markers of a round decides on each function as planned, and
still knows them afterwards. Nothing else in the world changes.
-/

open PreviewShots.Task

namespace PreviewShots

variable {table : SymbolTable} {r : Round} {classifier classifier' : Classifier}
  {world world' : World}

theorem Classifier.ends_search {α : Type} {search : Search α} {found : α}
    (h : Ends (Classifier.search table search) classifier world found classifier' world') :
    search.found? = some found ∧ classifier'.registry = classifier.registry ∧ world' = world := by
  simp only [Classifier.search, ends_bind, ends_modify, ends_ofOption] at h
  obtain ⟨_, _, _, ⟨rfl, rfl⟩, hfound, rfl, rfl⟩ := h
  exact ⟨hfound, rfl, rfl⟩

namespace Marker

theorem ends_classify {name : Label} {answer : Bool}
    (h : Ends (classify table name) classifier world answer classifier' world') :
    world' = world ∧ Settles table classifier.registry classifier'.registry ∧
      name.isCompound = false ∧
      (answer = true ↔ name.isTruthy ∧ Finds table classifier.registry name.key) := by
  obtain ⟨result, after, hrun, hasked⟩ := classify_asked table name classifier world
  have hcompound : name.isCompound = false := by
    obtain ⟨_, _, _, hsearch, -⟩ := ends_bind.mp h
    obtain ⟨hfound, -, -⟩ := Classifier.ends_search hsearch
    by_contra hc
    simp [SymbolTable.found?_lookUp, hc] at hfound
  rw [Ends, hrun] at h
  cases h
  exact ⟨rfl, hasked.settles, hcompound, hasked.tells⟩

end Marker

namespace Round

/-- What the registry finds are the markers of the round. -/
def IsKnown (r : Round) (registry : MarkerRegistry) : Prop :=
  ∀ key, Marker.Finds r.table registry key ↔ r.marker key

theorem IsKnown.settles {before after : MarkerRegistry} (h : r.IsKnown before)
    (hs : Marker.Settles r.table before after) : r.IsKnown after :=
  fun key => hs.finds_iff.trans (h key)

theorem isMark_iff {a : Annotation} (hc : a.typeName.isCompound = false) :
    r.IsMark a ↔ a.typeName.isTruthy = true ∧ r.marker a.typeName.key := by
  constructor
  · rintro ⟨decl, hr, hm⟩
    obtain ⟨ht, -, -⟩ := SymbolTable.resolveName_eq_some.mp hr
    exact ⟨ht, SymbolTable.resolveName_key hr ▸ hm⟩
  · rintro ⟨ht, hm⟩
    have hs : a.typeName.isScalar = true := by simpa [Label.isCompound, ht] using hc
    obtain ⟨decl, hr⟩ := r.table.exists_resolveName ht hs
    exact ⟨decl, hr, SymbolTable.resolveName_key hr ▸ hm⟩

theorem ends_matching {annotations markers : List Annotation} (hk : r.IsKnown classifier.registry)
    (h : Ends (Marker.matching r.table annotations) classifier world markers classifier' world') :
    world' = world ∧ Marker.Settles r.table classifier.registry classifier'.registry ∧
      markers = r.marks annotations := by
  induction annotations generalizing classifier world markers with
  | nil =>
    obtain ⟨rfl, rfl, rfl⟩ := ends_pure.mp h
    exact ⟨rfl, .refl, rfl⟩
  | cons a rest ih =>
    simp only [Marker.matching, ends_bind, ends_pure] at h
    obtain ⟨answer, _, _, hfirst, later, _, _, hrest, rfl, rfl, rfl⟩ := h
    obtain ⟨rfl, hs, hc, hanswer⟩ := Marker.ends_classify hfirst
    obtain ⟨rfl, hs', rfl⟩ := ih (hk.settles hs) hrest
    have hmark : answer = true ↔ r.IsMark a := by rw [hanswer, isMark_iff hc, hk]
    refine ⟨rfl, hs.trans hs', ?_⟩
    by_cases hm : r.IsMark a
    · simp [marks, hm, hmark.mpr hm]
    · simp [marks, hm, mt hmark.mp hm]

theorem marks_isEmpty {annotations : List Annotation} :
    (r.marks annotations).isEmpty = false ↔ ∃ a ∈ annotations, r.IsMark a := by
  simp [marks, List.isEmpty_eq_false_iff, List.filter_eq_nil_iff]

/-- The decision on a function is the one that is planned. -/
structure Decides (r : Round) (function : FunctionDecl) (decision : Decision) : Prop where
  violation : decision = .violation ↔ r.IsViolation function
  deferred : decision = .deferred ↔ r.IsDeferred function
  eligible : ∀ markers, decision = .eligible markers ↔
    r.IsEligible function ∧ markers = r.marks function.annotations

theorem ends_decision {function : FunctionDecl} {decision : Decision}
    (hk : r.IsKnown classifier.registry)
    (h : Ends (Selection.decision r.table r.config function) classifier world decision classifier'
      world') :
    world' = world ∧ Marker.Settles r.table classifier.registry classifier'.registry ∧
      Decides r function decision := by
  -- the checks in their order; what each of them leaves out is neither offered nor private
  simp only [Selection.decision] at h
  split at h
  · next hsynthetic =>
    obtain ⟨rfl, rfl, rfl⟩ := ends_pure.mp h
    refine ⟨rfl, .refl, ?_, ?_, ?_⟩ <;>
      simp [IsViolation, IsDeferred, IsEligible, IsOffered, hsynthetic]
  next hsource =>
  obtain ⟨markers, _, _, hmatch, hrest⟩ := ends_bind.mp h
  obtain ⟨rfl, hs, rfl⟩ := ends_matching hk hmatch
  have hmarked : (r.marks function.annotations).isEmpty = false ↔
      r.IsMarked function := marks_isEmpty
  split at hrest
  · next hprivate =>
    obtain ⟨rfl, rfl, rfl⟩ := ends_pure.mp hrest
    refine ⟨rfl, hs, ?_, ?_, ?_⟩ <;>
      cases hm : (r.marks function.annotations).isEmpty <;>
      simp [IsViolation, IsDeferred, IsEligible, IsOffered, ← hmarked, hm, hsource, hprivate]
  next hprivate =>
  obtain ⟨optedOut, _, _, hsearch, hlast⟩ := ends_bind.mp hrest
  obtain ⟨hfound, hregistry, rfl⟩ := Classifier.ends_search hsearch
  have hout : optedOut = true ↔ Plan.OptsOut r.table r.config function :=
    SymbolTable.carries_iff hfound
  rw [← hregistry] at hs
  split at hlast
  · next hopted =>
    obtain ⟨rfl, rfl, rfl⟩ := ends_pure.mp hlast
    refine ⟨rfl, hs, ?_, ?_, ?_⟩ <;>
      simp [IsViolation, IsDeferred, IsEligible, IsOffered, ← hout, hopted, hprivate]
  next hopted =>
  obtain ⟨isSound, _, _, hvalidate, hdecide⟩ := ends_bind.mp hlast
  obtain ⟨hsound, hregistry', rfl⟩ := Classifier.ends_search hvalidate
  rw [← hregistry'] at hs
  obtain ⟨rfl, rfl, rfl⟩ := ends_pure.mp hdecide
  refine ⟨rfl, hs, ?_, ?_, ?_⟩ <;>
    cases hm : (r.marks function.annotations).isEmpty <;> cases isSound <;>
    simp [IsViolation, IsDeferred, IsEligible, IsOffered, Selection.decisionOf, ← hmarked, ← hout,
      hm, hsource, hprivate, hopted, hsound, eq_comm]

/-- What is recorded of a function on a decision. -/
def recorded (path : Label) (function : FunctionDecl) : Decision → List Violation
  | .violation => [⟨path, function.simpleName⟩]
  | _ => []

theorem violationsOf_cons {path : Label} {function : FunctionDecl} {functions : List FunctionDecl}
    {decision : Decision} (h : Decides r function decision) :
    r.violationsOf path (function :: functions) =
      recorded path function decision ++ r.violationsOf path functions := by
  have hv := h.violation
  cases decision <;> simp_all [violationsOf, recorded]

theorem add_planned {file : SourceFile} {function : FunctionDecl} {functions : List FunctionDecl}
    {decision : Decision} (h : Decides r function decision) :
    (Selection.mk (r.eligibleOf file functions) (r.deferredOf functions)).add file function
        decision =
      ⟨r.eligibleOf file (function :: functions), r.deferredOf (function :: functions)⟩ := by
  have hd := h.deferred
  have he := h.eligible
  cases decision with
  | eligible markers =>
    obtain ⟨hfunction, rfl⟩ := (he markers).mp rfl
    simp_all [Selection.add, eligibleOf, deferredOf]
  | _ => simp_all [Selection.add, eligibleOf, deferredOf]

end Round

theorem Plan.isAccepted_iff {config : Config} {file : SourceFile} {accepted : Bool}
    (h : Selection.accepts? config file = some accepted) :
    accepted = true ↔ IsAccepted config file := by
  simp only [Selection.accepts?] at h
  split at h
  · next hsource =>
    obtain ⟨path, hpath, hexcluded⟩ := Option.bind_eq_some_iff.mp h
    obtain ⟨found, hfound, rfl⟩ := Option.map_eq_some_iff.mp hexcluded
    cases found <;> simp [IsAccepted, hsource, hpath, hfound]
  · next hsource =>
    obtain rfl : false = accepted := by simpa using h
    simp [IsAccepted, hsource]

end PreviewShots
