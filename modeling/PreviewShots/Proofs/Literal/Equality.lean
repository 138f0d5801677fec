import PreviewShots.Literal.Equality
import PreviewShots.Proofs.Json.Agreement

/-!
# Equality by parts

Lists are equal item by item. Annotations are equal when they have one type name and,
for every name, equal last arguments of that name or none. All arguments without a
name go by one name, so of these only the last ones are compared: annotations that
differ in an earlier one are told to be equal.
-/

namespace PreviewShots

-- ---------------------------------------------------------------------------
-- Answers
-- ---------------------------------------------------------------------------

theorem allYes?_eq_some_true {answers : List (Option Bool)} :
    allYes? answers = some true ↔ ∀ answer ∈ answers, answer = some true := by
  induction answers with
  | nil => simp [allYes?]
  | cons answer answers ih => rcases answer with _ | _ | _ <;> simp [allYes?, ih]

theorem isSome_allYes? {answers : List (Option Bool)} (h : ∀ answer ∈ answers, answer.isSome) :
    (allYes? answers).isSome := by
  induction answers with
  | nil => rfl
  | cons answer answers ih =>
    rw [List.forall_mem_cons] at h
    rcases answer with _ | _ | _
    · cases h.1
    · rfl
    · exact ih h.2

namespace Label

theorem has_cons (first : Label) (rest : List Label) (label : Label) :
    has (first :: rest) label = (decide (first.key = label.key) || has rest label) := by
  simp [has]

theorem has_concat (kept : List Label) (last : Label) (label : Label) :
    has (kept ++ [last]) label = (has kept label || decide (last.key = label.key)) := by
  simp [has]

theorem has_distinct (labels : List Label) (label : Label) :
    has (distinct labels) label = has labels label := by
  have hfold (kept : List Label) :
      has (labels.foldl (fun kept label =>
          if has kept label then kept else kept ++ [label]) kept) label =
        (has kept label || has labels label) := by
    induction labels generalizing kept with
    | nil => simp [has]
    | cons first rest ih =>
      rw [List.foldl_cons, ih, has_cons]
      split
      · next hkept =>
        by_cases hk : first.key = label.key
        · have : has kept label = true := by
            obtain ⟨other, hm, he⟩ := has_iff.mp hkept
            exact has_iff.mpr ⟨other, hm, he.trans hk⟩
          simp [this]
        · simp [hk]
      · rw [has_concat, Bool.or_assoc]
  exact hfold []

end Label

namespace Argument

variable {name : Label} {arguments : List Argument}

theorem lastNamed?_cons (name : Label) (first : Argument) (rest : List Argument) :
    lastNamed? name (first :: rest) =
      (lastNamed? name rest).or (if first.name.key = name.key then some first.value else none) := by
  simp only [lastNamed?, List.reverse_cons, List.find?_append, Option.map_or]
  split <;> simp_all

theorem lastNamed?_congr {other : Label} (h : name.key = other.key) :
    lastNamed? name arguments = lastNamed? other arguments := by
  simp [lastNamed?, h]

theorem hasName_eq : hasName name arguments = (lastNamed? name arguments).isSome := by
  induction arguments with
  | nil => rfl
  | cons first rest ih =>
    rw [lastNamed?_cons, Option.isSome_or, ← ih]
    by_cases h : first.name.key = name.key <;> simp [hasName, h]

theorem exists_of_lastNamed? {value : Literal} (h : lastNamed? name arguments = some value) :
    ∃ argument ∈ arguments, argument.name.key = name.key ∧ argument.value = value := by
  obtain ⟨argument, hf, rfl⟩ := Option.map_eq_some_iff.mp h
  refine ⟨argument, List.mem_reverse.mp (List.mem_of_find?_eq_some hf), ?_, rfl⟩
  simpa using List.find?_some hf

/-- Under each name that both lists have, the last values of that name are compared. -/
theorem find?_answers (name : Label) (left right : List Argument) :
    Label.find? name (answers left right) =
      (lastNamed? name left).bind fun value =>
        (lastNamed? name right).map fun other => value.equal? other := by
  induction left with
  | nil => rfl
  | cons first rest ih =>
    obtain ⟨firstName, firstValue⟩ := first
    unfold answers
    rw [lastNamed?_cons]
    by_cases hk : firstName.key = name.key
    · rw [hasName_eq, lastNamed?_congr hk]
      cases hrest : lastNamed? name rest with
      | some value => simp [ih, hrest]
      | none =>
        cases hright : lastNamed? name right with
        | some other => simp [hk, Label.find?, lastNamed?_congr hk, hright]
        | none => simp [hk, ih, hrest, lastNamed?_congr hk, hright]
    · simp only [hk, ↓reduceIte, Option.or_none]
      split
      · exact ih
      · split
        · simpa [Label.find?, hk] using ih
        · exact ih

theorem sameNames_iff {left right : List Argument} :
    sameNames left right = true ↔
      ∀ name, (lastNamed? name left).isSome = (lastNamed? name right).isSome := by
  have hsub {some others : List Argument} :
      (some.all fun a => hasName a.name others) = true ↔
        ∀ name, (lastNamed? name some).isSome → (lastNamed? name others).isSome := by
    simp only [List.all_eq_true, hasName_eq]
    constructor
    · intro h name hs
      obtain ⟨value, hv⟩ := Option.isSome_iff_exists.mp hs
      obtain ⟨argument, hm, hk, -⟩ := exists_of_lastNamed? hv
      rw [← lastNamed?_congr hk]
      exact h argument hm
    · intro h argument hm
      apply h
      rw [← hasName_eq]
      exact List.any_eq_true.mpr ⟨argument, hm, by simp⟩
  rw [sameNames, Bool.and_eq_true, hsub, hsub, ← forall_and]
  exact forall_congr' fun name => iff_iff_implies_and_implies.symm.trans Bool.eq_iff_iff.symm

end Argument

theorem optionRel_iff {α β : Type} {R : α → β → Prop} {left : Option α} {right : Option β} :
    Option.Rel R left right ↔
      left.isSome = right.isSome ∧ ∀ x y, left = some x → right = some y → R x y := by
  cases left <;> cases right <;> simp

namespace Annotation

theorem allYes?_answers_iff {left right : List Argument} :
    allYes? ((Label.distinct (left.map (·.name))).filterMap
        (Label.find? · (Argument.answers left right))) = some true ↔
      ∀ name value other, Argument.lastNamed? name left = some value →
        Argument.lastNamed? name right = some other → value.equal? other = some true := by
  rw [allYes?_eq_some_true]
  constructor
  · intro h name value other hvalue hother
    obtain ⟨argument, hm, hk, -⟩ := Argument.exists_of_lastNamed? hvalue
    have hhas : Label.has (left.map (·.name)) name = true :=
      Label.has_iff.mpr ⟨_, List.mem_map_of_mem hm, hk⟩
    rw [← Label.has_distinct] at hhas
    obtain ⟨kept, hkept, hk⟩ := Label.has_iff.mp hhas
    refine h _ (List.mem_filterMap.mpr ⟨kept, hkept, ?_⟩)
    simp [Label.find?_congr hk, Argument.find?_answers, hvalue, hother]
  · intro h answer hm
    obtain ⟨name, -, hf⟩ := List.mem_filterMap.mp hm
    simp only [Argument.find?_answers, Option.bind_eq_some_iff, Option.map_eq_some_iff] at hf
    obtain ⟨value, hvalue, other, hother, rfl⟩ := hf
    exact h name value other hvalue hother

/-- Equal annotations have one type name and, for every name, equal last arguments of
that name, or both have none. -/
theorem equal?_iff {left right : Annotation} :
    left.equal? right = some true ↔
      left.typeName.equal right.typeName ∧
        Argument.haveKeys left.arguments ∧ Argument.haveKeys right.arguments ∧
        ∀ name, Option.Rel (fun value other => value.equal? other = some true)
          (Argument.lastNamed? name left.arguments)
          (Argument.lastNamed? name right.arguments) := by
  obtain ⟨typeName, shortName, arguments, defaults⟩ := left
  unfold equal?
  simp only [optionRel_iff, forall_and, ← Argument.sameNames_iff]
  split
  · next ht => simp_all
  · split
    · next hk =>
      simp only [Bool.not_eq_true', Bool.and_eq_false_iff] at hk
      rcases hk with hk | hk <;> simp [hk]
    · split
      · next hs => simp_all
      · next ht hk hs =>
        simp only [Bool.not_eq_true', Bool.not_eq_false, Bool.and_eq_true] at ht hk hs
        simp only [ht, hk, hs, true_and, allYes?_answers_iff]

/-- It can be told whether annotations are equal, if their arguments have keys and it
can be told of any two of these. -/
theorem isSome_equal? {left right : Annotation} (hl : Argument.haveKeys left.arguments)
    (hr : Argument.haveKeys right.arguments)
    (h : ∀ a ∈ left.arguments, ∀ b ∈ right.arguments, (a.value.equal? b.value).isSome) :
    (left.equal? right).isSome := by
  obtain ⟨typeName, shortName, arguments, defaults⟩ := left
  unfold equal?
  split
  · rfl
  · split
    · next hk => simp_all
    · split
      · rfl
      · refine isSome_allYes? fun answer hm => ?_
        obtain ⟨name, -, hf⟩ := List.mem_filterMap.mp hm
        simp only [Argument.find?_answers, Option.bind_eq_some_iff, Option.map_eq_some_iff] at hf
        obtain ⟨value, hvalue, other, hother, rfl⟩ := hf
        obtain ⟨a, ha, -, rfl⟩ := Argument.exists_of_lastNamed? hvalue
        obtain ⟨b, hb, -, rfl⟩ := Argument.exists_of_lastNamed? hother
        exact h a ha b hb

end Annotation

-- ---------------------------------------------------------------------------
-- Literals by their kind
-- ---------------------------------------------------------------------------

namespace Literal

theorem equal?_string {text : Text} {right : Literal} :
    (string text).equal? right = some true ↔ right = .string text := by
  cases right <;> simp [equal?, eq_comm]

theorem equal?_classRef {name : Label} {right : Literal} :
    (classRef name).equal? right = some true ↔
      ∃ other, right = .classRef other ∧ name.equal other := by
  cases right <;> simp [equal?]

theorem equal?_nested {value : Annotation} {right : Literal} :
    (nested value).equal? right = some true ↔
      ∃ other, right = .nested other ∧ value.equal? other = some true := by
  cases right <;> simp [equal?]

theorem equal?_other {value : Json} {source : Label} {right : Literal} :
    (other value source).equal? right = some true ↔
      ∃ value' source', right = .other value' source' ∧ value.same value' ∧
        source.equal source' := by
  cases right <;> simp [equal?]

theorem allEqual?_cons (first other : Literal) (rest others : List Literal) :
    allEqual? (first :: rest) (other :: others) = match first.equal? other with
      | some true => allEqual? rest others
      | answer => answer :=
  rfl

theorem allEqual?_iff {left right : List Literal} (h : left.length = right.length) :
    allEqual? left right = some true ↔
      List.Forall₂ (fun value other => value.equal? other = some true) left right := by
  induction left generalizing right with
  | nil =>
    cases right with
    | nil => simp [allEqual?]
    | cons => simp at h
  | cons first rest ih =>
    cases right with
    | nil => simp at h
    | cons other others =>
      rw [List.forall₂_cons, ← ih (Nat.succ.inj h), allEqual?_cons]
      cases first.equal? other with
      | none => simp
      | some answer => cases answer <;> simp

theorem equal?_list {items : List Literal} {right : Literal} :
    (list items).equal? right = some true ↔
      ∃ others, right = .list others ∧
        List.Forall₂ (fun value other => value.equal? other = some true) items others := by
  cases right with
  | list others =>
    simp only [equal?, list.injEq, exists_eq_left']
    split
    · next h => exact allEqual?_iff h
    · next h => simpa using fun hall => h hall.length_eq
  | _ => simp [equal?]

theorem isSome_allEqual? {left right : List Literal}
    (h : ∀ value ∈ left, ∀ other ∈ right, (value.equal? other).isSome) :
    (allEqual? left right).isSome := by
  induction left generalizing right with
  | nil => rfl
  | cons first rest ih =>
    cases right with
    | nil => rfl
    | cons other others =>
      rw [allEqual?_cons]
      split
      · exact ih fun value hv other ho =>
          h value (List.mem_cons_of_mem _ hv) other (List.mem_cons_of_mem _ ho)
      · exact h first List.mem_cons_self other List.mem_cons_self

end Literal

-- ---------------------------------------------------------------------------
-- Arguments without a name
-- ---------------------------------------------------------------------------

section

variable {α β : Type} {R : α → β → Prop} {left : List α} {right : List β}

theorem forall₂_iff_head : List.Forall₂ R left right ↔
    Option.Rel R left.head? right.head? ∧ List.Forall₂ R left.tail right.tail := by
  cases left <;> cases right <;> simp

theorem forall₂_iff_last : List.Forall₂ R left right ↔
    Option.Rel R left.getLast? right.getLast? ∧ List.Forall₂ R left.dropLast right.dropLast := by
  rw [← List.forall₂_reverse_iff, forall₂_iff_head, List.head?_reverse, List.head?_reverse,
    List.tail_reverse, List.tail_reverse, List.forall₂_reverse_iff]

end

namespace Argument

/-- The values of the arguments without a name, in order. -/
def unnamed (arguments : List Argument) : List Literal :=
  (arguments.filter (·.name.key = .null)).map (·.value)

/-- Of the arguments without a name the last one is found. -/
theorem lastNamed?_null {name : Label} (h : name.key = .null) (arguments : List Argument) :
    lastNamed? name arguments = (unnamed arguments).getLast? := by
  rw [unnamed, List.getLast?_map, List.getLast?_eq_head?_reverse, ← List.filter_reverse,
    List.head?_filter]
  simp [lastNamed?, h]

end Argument

namespace Annotation

/-- Two annotations are written alike: with one type, or with one short name where no
type is known, with equal arguments without a name, one by one, and with equal
arguments under every name. -/
structure SaysSame (left right : Annotation) : Prop where
  typeName : left.typeName.equal right.typeName
  shortName : left.typeName = .null → left.shortName.equal right.shortName
  unnamed : List.Forall₂ (fun value other => value.equal? other = some true)
    (Argument.unnamed left.arguments) (Argument.unnamed right.arguments)
  named : ∀ name : Label, name.key ≠ .null →
    Option.Rel (fun value other => value.equal? other = some true)
      (Argument.lastNamed? name left.arguments) (Argument.lastNamed? name right.arguments)

/-- Whoever is written alike is told to be equal. The converse fails just where the
annotations differ in an argument without a name that has another one after it, or in
the short names of types that are not known. -/
theorem saysSame_iff_equal? (left right : Annotation) :
    (Literal.nested left).equal? (.nested right) = left.equal? right ∧
      (left.SaysSame right ∧ Argument.haveKeys left.arguments ∧
          Argument.haveKeys right.arguments ↔
        left.equal? right = some true ∧
          (left.typeName = .null → left.shortName.equal right.shortName) ∧
          List.Forall₂ (fun value other => value.equal? other = some true)
            (Argument.unnamed left.arguments).dropLast
            (Argument.unnamed right.arguments).dropLast) := by
  refine ⟨rfl, ?_⟩
  rw [equal?_iff]
  constructor
  · rintro ⟨h, hl, hr⟩
    obtain ⟨hlast, hbefore⟩ := forall₂_iff_last.mp h.unnamed
    refine ⟨⟨h.typeName, hl, hr, fun name => ?_⟩, h.shortName, hbefore⟩
    by_cases hn : name.key = .null
    · rw [Argument.lastNamed?_null hn, Argument.lastNamed?_null hn]
      exact hlast
    · exact h.named name hn
  · rintro ⟨⟨htype, hl, hr, hnames⟩, hshort, hbefore⟩
    have hlast := hnames .null
    rw [Argument.lastNamed?_null rfl, Argument.lastNamed?_null rfl] at hlast
    exact ⟨⟨htype, hshort, forall₂_iff_last.mpr ⟨hlast, hbefore⟩, fun name _ => hnames name⟩,
      hl, hr⟩

/-- An annotation with two whole numbers for arguments, both without a name. -/
def pair (first second : Int) : Annotation :=
  .make (.string "A") .null
    [⟨.null, .other (.int first) .null⟩, ⟨.null, .other (.int second) .null⟩] none

/-- The first of the two arguments makes no difference. -/
theorem pair_told_equal :
    (pair 1 2).equal? (pair 3 2) = some true ∧ (pair 3 2).equal? (pair 1 2) = some true ∧
      ¬(pair 1 2).SaysSame (pair 3 2) := by
  refine ⟨by decide, by decide, fun h => ?_⟩
  have hfirst := (List.forall₂_cons.mp h.unnamed).1
  revert hfirst
  decide

end Annotation

end PreviewShots
