import Mathlib.Data.List.Induction
import Mathlib.Data.List.Pairwise
import PreviewShots.Proofs.Label
import PreviewShots.Proofs.Literal.Comparison
import PreviewShots.Synthesis

/-!
# Arguments that are kept

A copied annotation does without the arguments that only repeat a default. What it says
for each name stays the same (`keptArguments_isReduction`). An argument without a name is
kept, but it moves up by as many places as arguments before it are dropped, and so comes to
stand for another parameter (`placed_keptArguments`).
-/

namespace PreviewShots

-- ---------------------------------------------------------------------------
-- Declared defaults
-- ---------------------------------------------------------------------------

/-- The default of the last parameter of that name that has one. -/
def ClassDecl.lastDefault? (decl : ClassDecl) (name : Label) : Option Literal :=
  (decl.parameters.reverse.find? fun p => p.name.key = name.key && p.default.isSome).bind
    (·.default)

theorem ClassDecl.find?_defaults (decl : ClassDecl) (name : Label) :
    Label.find? name decl.defaults = decl.lastDefault? name := by
  rw [defaults, Label.find?_tableOf, ← List.filterMap_reverse, List.find?_filterMap, lastDefault?]
  have htest : (fun p : Parameter => (p.default.map (p.name, ·)).any (·.1.key = name.key)) =
      fun p => p.name.key = name.key && p.default.isSome := by
    funext p
    cases p.default <;> simp
  rw [htest]
  cases decl.parameters.reverse.find? fun p => p.name.key = name.key && p.default.isSome with
  | none => rfl
  | some p => cases hp : p.default <;> simp [hp]

/-- The default that is declared for a name. If an annotation brings defaults along these
count and not those of its class; a missing name has none among them. -/
def SymbolTable.declared? (table : SymbolTable) (a : Annotation) (name : Label) : Option Literal :=
  match a.defaults with
  | some arguments => Argument.lastNamed? name (arguments.filter (·.name.isTruthy))
  | none => (table.resolveName a.typeName).bind (·.lastDefault? name)

theorem SymbolTable.find?_defaultsOf (table : SymbolTable) (a : Annotation) (name : Label) :
    Label.find? name (table.defaultsOf a) = table.declared? a name := by
  unfold defaultsOf declared?
  cases a.defaults with
  | some arguments =>
    simp only [Label.find?_tableOf, ← List.map_reverse, List.find?_map, Option.map_map,
      Argument.lastNamed?]
    rfl
  | none =>
    cases table.resolveName a.typeName with
    | some decl => exact decl.find?_defaults name
    | none => rfl

-- ---------------------------------------------------------------------------
-- Arguments by their names
-- ---------------------------------------------------------------------------

namespace Argument

variable {arguments : List Argument} {argument : Argument} {name : Label}

/-- No name is that of two arguments; any number of arguments may have none. -/
def AreDistinct (arguments : List Argument) : Prop :=
  arguments.Pairwise fun left right => left.name.key = right.name.key → left.name.key = .null

theorem AreDistinct.eq_of_key (h : AreDistinct arguments) {other : Argument}
    (hm : argument ∈ arguments) (ho : other ∈ arguments) (hk : argument.name.key = other.name.key)
    (hn : argument.name.key ≠ .null) : argument = other := by
  have hsymm : Std.Symm fun left right : Argument =>
      left.name.key = right.name.key → left.name.key = .null :=
    ⟨fun left right hlr he => he.trans (hlr he.symm)⟩
  by_contra hne
  exact hn (List.Pairwise.forall h hm ho hne hk)

/-- The argument of a name is the one that is found under it. -/
theorem AreDistinct.lastNamed?_eq (h : AreDistinct arguments) (hm : argument ∈ arguments)
    (hk : argument.name.key = name.key) (hn : name.key ≠ .null) :
    lastNamed? name arguments = some argument.value := by
  have hsome : (lastNamed? name arguments).isSome := by
    rw [← hasName_eq]
    exact List.any_eq_true.mpr ⟨argument, hm, by simpa using hk⟩
  obtain ⟨value, hvalue⟩ := Option.isSome_iff_exists.mp hsome
  obtain ⟨other, ho, hko, rfl⟩ := exists_of_lastNamed? hvalue
  rw [hvalue, h.eq_of_key hm ho (hk.trans hko.symm) (hk ▸ hn)]

theorem lastNamed?_eq_none :
    lastNamed? name arguments = none ↔ ∀ argument ∈ arguments, argument.name.key ≠ name.key := by
  simp [lastNamed?]

/-- Names that can be looked up, and values that can be compared. -/
def AreComparable (arguments : List Argument) : Prop :=
  ∀ argument ∈ arguments, argument.name.isScalar ∧
    argument.value.Holds (fun _ => True) (Label.isScalar ·)

end Argument

-- ---------------------------------------------------------------------------
-- What is kept
-- ---------------------------------------------------------------------------

namespace Synthesis

variable {table : SymbolTable} {a : Annotation} {argument : Argument} {kept : List Argument}

/-- What an annotation with these arguments says for a name: what is written under it, or
else the default that is declared. -/
def effective? (table : SymbolTable) (a : Annotation) (arguments : List Argument) (name : Label) :
    Option Literal :=
  (Argument.lastNamed? name arguments).or (table.declared? a name)

/-- Some of the arguments that say the same: all those without a name, and of the others none
that only repeats a default. The value of a name stays the same one, or an equal one takes its
place. -/
structure IsReduction (table : SymbolTable) (a : Annotation) (kept : List Argument) : Prop where
  sublist : kept.Sublist a.arguments
  unnamed : Argument.unnamed kept = Argument.unnamed a.arguments
  effective : ∀ name, Option.Rel
    (fun before after => before = after ∨ before.equal? after = some true)
    (effective? table a a.arguments name) (effective? table a kept name)
  not_default : ∀ argument ∈ kept, argument.name ≠ .null →
    ∀ value, table.declared? a argument.name = some value → argument.value.equal? value ≠ some true

theorem isDefault_iff : isDefault table a argument = true ↔ argument.name ≠ .null ∧
    ∃ value, table.declared? a argument.name = some value ∧
      argument.value.equal? value = some true := by
  have hnull : argument.name.key = .null ↔ argument.name = .null :=
    ⟨Label.eq_null_of_key, fun h => h ▸ rfl⟩
  unfold isDefault default?
  split
  · next hk => simp [hnull.mp hk]
  · next hk =>
    rw [SymbolTable.find?_defaultsOf]
    simp [hnull.not.mp hk, Option.any_eq_true, Literal.equal]

theorem isDefault_of_key_null (h : argument.name.key = .null) :
    isDefault table a argument = false :=
  Bool.eq_false_iff.mpr fun hdefault => (isDefault_iff.mp hdefault).1 (Label.eq_null_of_key h)

theorem mem_keptArguments : argument ∈ keptArguments table a ↔
    argument ∈ a.arguments ∧ isDefault table a argument = false := by
  simp [keptArguments]

theorem unnamed_keptArguments (table : SymbolTable) (a : Annotation) :
    Argument.unnamed (keptArguments table a) = Argument.unnamed a.arguments := by
  unfold Argument.unnamed keptArguments
  rw [List.filter_filter]
  congr 1
  apply List.filter_congr
  intro argument _
  by_cases hk : argument.name.key = .null
  · simp [hk, isDefault_of_key_null hk]
  · simp [hk]

/-- An argument that is dropped leaves its default in its place. -/
theorem effective_keptArguments (h : Argument.AreDistinct a.arguments) (name : Label) :
    Option.Rel (fun before after => before = after ∨ before.equal? after = some true)
      (effective? table a a.arguments name) (effective? table a (keptArguments table a) name) := by
  have hsame (found : Option Literal) : Option.Rel
      (fun before after => before = after ∨ before.equal? after = some true) found found := by
    cases found with
    | none => exact .none
    | some value => exact .some (.inl rfl)
  by_cases hn : name.key = .null
  · simp only [effective?, Argument.lastNamed?_null hn, unnamed_keptArguments]
    exact hsame _
  by_cases hnone : ∀ argument ∈ a.arguments, argument.name.key ≠ name.key
  · have hkept : ∀ argument ∈ keptArguments table a, argument.name.key ≠ name.key :=
      fun argument hm => hnone argument (mem_keptArguments.mp hm).1
    rw [effective?, effective?, Argument.lastNamed?_eq_none.mpr hnone,
      Argument.lastNamed?_eq_none.mpr hkept]
    exact hsame _
  push Not at hnone
  obtain ⟨argument, hm, hk⟩ := hnone
  rw [effective?, h.lastNamed?_eq hm hk hn, Option.some_or, effective?]
  cases hdefault : isDefault table a argument with
  | false =>
    have hkept : Argument.AreDistinct (keptArguments table a) := h.filter _
    rw [hkept.lastNamed?_eq (mem_keptArguments.mpr ⟨hm, hdefault⟩) hk hn]
    exact .some (.inl rfl)
  | true =>
    obtain ⟨-, value, hvalue, hequal⟩ := isDefault_iff.mp hdefault
    have hgone : Argument.lastNamed? name (keptArguments table a) = none := by
      refine Argument.lastNamed?_eq_none.mpr fun other ho hko => ?_
      obtain ⟨ho, hfalse⟩ := mem_keptArguments.mp ho
      rw [h.eq_of_key ho hm (hko.trans hk.symm) (hko ▸ hn), hdefault] at hfalse
      cases hfalse
    have hdeclared : table.declared? a name = some value := by
      rw [← SymbolTable.find?_defaultsOf, ← Label.find?_congr hk, SymbolTable.find?_defaultsOf,
        hvalue]
    rw [hgone, hdeclared]
    exact .some (.inr hequal)

/-- Everything that is looked up has a name that can be, down to the values compared. -/
structure IsComparable (table : SymbolTable) (a : Annotation) : Prop where
  typeName : a.typeName.isScalar
  arguments : Argument.AreComparable a.arguments
  defaults : ∀ arguments ∈ a.defaults, Argument.AreComparable arguments
  parameters : ∀ decl ∈ table.resolveName a.typeName, ∀ p ∈ decl.parameters, ∀ value ∈ p.default,
    p.name.isScalar ∧ value.Holds (fun _ => True) (Label.isScalar ·)

theorem IsComparable.holds_declared (h : IsComparable table a) {name : Label} {value : Literal}
    (hd : table.declared? a name = some value) :
    value.Holds (fun _ => True) (Label.isScalar ·) := by
  unfold SymbolTable.declared? at hd
  split at hd
  · next arguments hdefaults =>
    obtain ⟨argument, hm, -, rfl⟩ := Argument.exists_of_lastNamed? hd
    exact (h.defaults arguments hdefaults argument (List.mem_filter.mp hm).1).2
  · obtain ⟨decl, hdecl, hlast⟩ := Option.bind_eq_some_iff.mp hd
    obtain ⟨p, hp, hvalue⟩ := Option.bind_eq_some_iff.mp hlast
    have hm : p ∈ decl.parameters := List.mem_reverse.mp (List.mem_of_find?_eq_some hp)
    exact (h.parameters decl hdecl p hm value hvalue).2

theorem IsComparable.isReducible (h : IsComparable table a) : isReducible table a = true := by
  have hdefaults : table.hasDefaults a = true := by
    unfold SymbolTable.hasDefaults
    split
    · next arguments hsome =>
      refine List.all_eq_true.mpr fun argument hm => ?_
      simp [Label.isCompound, (h.defaults arguments hsome argument hm).1]
    · refine (Option.all_eq_true _ _).mpr fun decl hdecl => ?_
      refine List.all_eq_true.mpr fun p hp => ?_
      cases hvalue : p.default with
      | none => rfl
      | some value => simpa using (h.parameters decl hdecl p hp value hvalue).1
  unfold Synthesis.isReducible
  rw [hdefaults, Bool.true_and, List.all_eq_true]
  intro argument hm
  obtain ⟨hname, hvalue⟩ := h.arguments argument hm
  rw [hname, Bool.true_and, Option.all_eq_true]
  intro value hd
  unfold default? at hd
  split at hd
  · cases hd
  · rw [SymbolTable.find?_defaultsOf] at hd
    exact Literal.isSome_equal?_of_holds hvalue (h.holds_declared hd)

/-- The arguments of an annotation can be reduced where everything has a name that can be
looked up. What is kept says the same, and there is nothing more to drop from it. -/
theorem keptArguments_isReduction (table : SymbolTable) (a : Annotation)
    (h : Argument.AreDistinct a.arguments) :
    (IsComparable table a → isReducible table a = true) ∧
      IsReduction table a (keptArguments table a) ∧
      keptArguments table { a with arguments := keptArguments table a } =
        keptArguments table a := by
  refine ⟨IsComparable.isReducible, ⟨List.filter_sublist, unnamed_keptArguments table a,
    effective_keptArguments h, ?_⟩, ?_⟩
  · intro argument hm hn value hvalue hequal
    have hfalse := (mem_keptArguments.mp hm).2
    rw [isDefault_iff.mpr ⟨hn, value, hvalue, hequal⟩] at hfalse
    cases hfalse
  · -- the defaults are those of the annotation, whatever its arguments
    refine List.filter_eq_self.mpr fun argument hm => ?_
    have hfalse := (mem_keptArguments.mp hm).2
    rw [Bool.not_eq_true']
    exact hfalse

/-- An annotation class with three parameters, of which two have a default. -/
def boxClass : ClassDecl where
  qualifiedName := .string "app.Box"
  kind := .annotationClass
  annotations := []
  parameters := [
    ⟨.string "width", .unknown, [], some (.other (.int 1) .null)⟩,
    ⟨.string "height", .unknown, [], none⟩,
    ⟨.string "depth", .unknown, [], some (.other (.int 3) .null)⟩]
  origin := .kotlinLibrary
  filePath := .null

def boxes : SymbolTable := ⟨[], [boxClass], none⟩

/-- The width is written although it is the default, the height without its name. -/
def box : Annotation :=
  .make (.string "app.Box") .null [⟨.string "width", .other (.int 1) .null⟩,
    ⟨.null, .other (.int 2) .null⟩, ⟨.string "depth", .other (.int 4) .null⟩] none

theorem box_isComparable : IsComparable boxes box := by
  have hwhole (n : Int) : (Literal.other (.int n) .null).Holds (fun _ => True) (Label.isScalar ·) :=
    .other trivial trivial
  refine ⟨rfl, fun argument hm => ?_, nofun, fun decl hdecl p hp value hvalue => ?_⟩
  · simp only [box, Annotation.make, List.mem_cons, List.not_mem_nil, or_false] at hm
    rcases hm with rfl | rfl | rfl <;> exact ⟨rfl, hwhole _⟩
  · obtain rfl : boxClass = decl := Option.some.inj hdecl
    simp only [boxClass, List.mem_cons, List.not_mem_nil, or_false] at hp
    rcases hp with rfl | rfl | rfl <;> cases hvalue <;> exact ⟨rfl, hwhole _⟩

theorem box_isReduction : Argument.AreDistinct box.arguments ∧ isReducible boxes box = true ∧
    keptArguments boxes box =
      [⟨.null, .other (.int 2) .null⟩, ⟨.string "depth", .other (.int 4) .null⟩] ∧
    IsReduction boxes box (keptArguments boxes box) := by
  have hdistinct : Argument.AreDistinct box.arguments := by
    unfold Argument.AreDistinct
    decide
  obtain ⟨hreducible, hreduction, -⟩ := keptArguments_isReduction boxes box hdistinct
  exact ⟨hdistinct, hreducible box_isComparable, rfl, hreduction⟩

end Synthesis

-- ---------------------------------------------------------------------------
-- Places
-- ---------------------------------------------------------------------------

section

variable {α : Type}

/-- What is kept comes after as many items as are kept before it. -/
theorem zipIdx_filter (keep : α → Bool) (items : List α) :
    (items.filter keep).zipIdx = (items.zipIdx.filter (keep ·.1)).map fun (item, place) =>
      (item, (items.take place).countP keep) := by
  induction items using List.reverseRecOn with
  | nil => rfl
  | append_singleton items last ih =>
    have hbefore : (items.filter keep).zipIdx = (items.zipIdx.filter (keep ·.1)).map
        fun (item, place) => (item, ((items ++ [last]).take place).countP keep) := by
      rw [ih]
      refine List.map_congr_left fun ⟨item, place⟩ hm => ?_
      have hlt : place < items.length := List.snd_lt_of_mem_zipIdx (List.mem_filter.mp hm).1
      dsimp only
      rw [List.take_append_of_le_length (Nat.le_of_lt hlt)]
    rw [List.filter_append, List.zipIdx_append, List.zipIdx_append, List.filter_append,
      List.map_append, ← hbefore]
    cases hk : keep last <;> simp [hk, List.countP_eq_length_filter]

theorem countP_take_not (drop : α → Bool) {items : List α} {place : Nat}
    (h : place ≤ items.length) :
    (items.take place).countP (!drop ·) = place - (items.take place).countP drop := by
  have hcount := List.length_eq_countP_add_countP drop (l := items.take place)
  have hnot : (items.take place).countP (!drop ·) =
      (items.take place).countP fun item => decide ¬drop item = true :=
    List.countP_congr fun item _ => by simp
  rw [List.length_take_of_le h] at hcount
  omega

end

/-- The arguments without a name, each with its place among all of them. -/
def Argument.placed (arguments : List Argument) : List (Literal × Nat) :=
  (arguments.zipIdx.filter (·.1.name.key = .null)).map fun (argument, place) =>
    (argument.value, place)

namespace Synthesis

/-- An argument moves up by as many places as arguments before it are dropped. -/
theorem placed_eq (table : SymbolTable) (a : Annotation) :
    Argument.placed (keptArguments table a) =
      (a.arguments.zipIdx.filter (·.1.name.key = .null)).map fun (argument, place) =>
        (argument.value, place - (a.arguments.take place).countP (isDefault table a)) := by
  have hnamed : a.arguments.zipIdx.filter (fun entry =>
      decide (entry.1.name.key = .null) && !isDefault table a entry.1) =
        a.arguments.zipIdx.filter (·.1.name.key = .null) := by
    refine List.filter_congr fun ⟨argument, place⟩ _ => ?_
    by_cases hk : argument.name.key = .null
    · simp [hk, isDefault_of_key_null hk]
    · simp [hk]
  unfold Argument.placed keptArguments
  rw [zipIdx_filter, List.filter_map, List.filter_filter, List.map_map]
  simp only [Function.comp_def, hnamed]
  refine List.map_congr_left fun ⟨argument, place⟩ hm => ?_
  have hlt : place < a.arguments.length := List.snd_lt_of_mem_zipIdx (List.mem_filter.mp hm).1
  rw [countP_take_not _ (Nat.le_of_lt hlt)]

theorem placed_eq_iff (table : SymbolTable) (a : Annotation) :
    Argument.placed (keptArguments table a) = Argument.placed a.arguments ↔
      a.arguments.Pairwise fun earlier later =>
        later.name.key = .null → isDefault table a earlier = false := by
  rw [placed_eq, Argument.placed, List.map_inj_left, List.pairwise_iff_getElem]
  simp only [Prod.forall, List.mem_filter, List.mk_mem_zipIdx_iff_getElem?, decide_eq_true_eq,
    Prod.mk.injEq, true_and, and_imp, List.getElem?_eq_some_iff]
  constructor
  · intro h i j hi hj hij hk
    have hcount := h _ _ ⟨hj, rfl⟩ hk
    have hle := List.countP_le_length (p := isDefault table a) (l := a.arguments.take j)
    rw [List.length_take_of_le (Nat.le_of_lt hj)] at hle
    have hzero : (a.arguments.take j).countP (isDefault table a) = 0 := by omega
    have hm : a.arguments[i] ∈ a.arguments.take j :=
      List.mem_take_iff_getElem.mpr ⟨i, by omega, rfl⟩
    simpa using List.countP_eq_zero.mp hzero _ hm
  · rintro h _ j ⟨hj, rfl⟩ hk
    have hzero : (a.arguments.take j).countP (isDefault table a) = 0 := by
      refine List.countP_eq_zero.mpr fun earlier hm => ?_
      obtain ⟨i, hi, rfl⟩ := List.mem_take_iff_getElem.mp hm
      rw [h i j (by omega) hj (by omega) hk]
      nofun
    omega

/-- The arguments without a name are all kept, and move up by what is dropped before them. They
stay in their places exactly if none of them has an argument before it that repeats a default. -/
theorem placed_keptArguments (table : SymbolTable) (a : Annotation) :
    Argument.placed (keptArguments table a) =
        (a.arguments.zipIdx.filter (·.1.name.key = .null)).map (fun (argument, place) =>
          (argument.value, place - (a.arguments.take place).countP (isDefault table a))) ∧
      (Argument.placed (keptArguments table a) = Argument.placed a.arguments ↔
        a.arguments.Pairwise fun earlier later =>
          later.name.key = .null → isDefault table a earlier = false) :=
  ⟨placed_eq table a, placed_eq_iff table a⟩

/-- The height of the box comes to stand in the place of its width. -/
theorem box_misplaced :
    Argument.placed box.arguments = [(.other (.int 2) .null, 1)] ∧
      Argument.placed (keptArguments boxes box) = [(.other (.int 2) .null, 0)] ∧
      Argument.placed (keptArguments boxes box) ≠ Argument.placed box.arguments ∧
      written (·.simple) boxes box box.arguments = "@Box(width = 1, 2, depth = 4)" ∧
      written (·.simple) boxes box (keptArguments boxes box) = "@Box(2, depth = 4)" := by
  refine ⟨rfl, rfl, fun h => ?_, by decide, by decide⟩
  have hplaces : [0] = [1] := congrArg (List.map Prod.snd) h
  cases hplaces

end Synthesis

end PreviewShots
