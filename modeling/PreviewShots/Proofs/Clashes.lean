import PreviewShots.Proofs.Grouping
import PreviewShots.Proofs.Identifiers
import PreviewShots.Proofs.UnitWriter

/-!
# Tests that are told to be there twice

Of two tests of a unit it is told that they clash if they have one name and one list of
parameters. The list is compared as it is written, with the annotation and the name of the
parameter in it. So tests of one name and one type of parameter are told of where these are the
same as well, and never otherwise (`twice_told_iff`).
-/

open PreviewShots.Task

namespace PreviewShots

namespace UnitWriter

/-- What a test is told apart from others by. -/
def identity (fragment : Fragment) : Key × Key :=
  (fragment.functionName.key, fragment.signature.key)

theorem pair_sublist_cons {α : Type} {first second item : α} {items : List α} :
    [first, second].Sublist (item :: items) ↔
      [first, second].Sublist items ∨ first = item ∧ second ∈ items := by
  rw [List.sublist_cons_iff]
  simp [eq_comm]

/-- It is told of a test that one seen before, or one before it in the list, is the same. -/
theorem mem_clashes_iff {unit name : Text} {seen : List (Key × Key)} {fragments : List Fragment} :
    .unitTwice unit name ∈ clashes unit seen fragments ↔
      (∃ f ∈ fragments, f.functionName.plain = name ∧ identity f ∈ seen) ∨
      ∃ f g, [f, g].Sublist fragments ∧ g.functionName.plain = name ∧ identity f = identity g := by
  induction fragments generalizing seen with
  | nil => simp [clashes]
  | cons first rest ih =>
    have hhere : .unitTwice unit name ∈
        (if identity first ∈ seen then [Notice.unitTwice unit first.functionName.plain] else []) ↔
        first.functionName.plain = name ∧ identity first ∈ seen := by
      split <;> simp_all [eq_comm]
    have hstep : .unitTwice unit name ∈ clashes unit seen (first :: rest) ↔
        (first.functionName.plain = name ∧ identity first ∈ seen) ∨
        .unitTwice unit name ∈ clashes unit (identity first :: seen) rest := by
      rw [← hhere]
      exact List.mem_append
    rw [hstep, ih]
    simp only [pair_sublist_cons, List.mem_cons]
    constructor
    · rintro (⟨hname, hseen⟩ | ⟨f, hf, hname, hfirst | hseen⟩ | ⟨f, g, hpair, hname, hsame⟩)
      · exact .inl ⟨first, .inl rfl, hname, hseen⟩
      · exact .inr ⟨first, f, .inr ⟨rfl, hf⟩, hname, hfirst.symm⟩
      · exact .inl ⟨f, .inr hf, hname, hseen⟩
      · exact .inr ⟨f, g, .inl hpair, hname, hsame⟩
    · rintro (⟨f, rfl | hf, hname, hseen⟩ | ⟨f, g, hpair | ⟨rfl, hg⟩, hname, hsame⟩)
      · exact .inl ⟨hname, hseen⟩
      · exact .inr (.inl ⟨f, hf, hname, .inr hseen⟩)
      · exact .inr (.inr ⟨f, g, hpair, hname, hsame⟩)
      · exact .inr (.inl ⟨g, hg, hname, .inl hsame.symm⟩)

end UnitWriter

namespace Name

variable {text text' name name' inner : Text}

theorem append_cons_inj {sep : CodePoint} (h : sep ∉ name) (h' : sep ∉ name')
    (he : text ++ sep :: name = text' ++ sep :: name') : text = text' ∧ name = name' := by
  have hcut : Text.cutLast? sep (text ++ sep :: name) = some (text, name) := Text.cutLast?_append h
  rw [he, Text.cutLast?_append h'] at hcut
  simpa [eq_comm] using hcut

theorem IsIdentifier.ne_append_tick (h : IsIdentifier name) :
    text ++ .char ' ' :: name ≠ inner ++ [tick] := by
  intro he
  have hlast := congrArg List.getLast? he
  obtain ⟨c, cs, rfl, -⟩ := id h
  rw [List.getLast?_append_of_ne_nil _ (by simp), List.getLast?_cons_cons,
    List.getLast?_concat] at hlast
  exact h.tick_not_mem (List.mem_of_getLast? hlast)

/-- A well-formed name is told from the text in front of it. -/
theorem IsWellFormed.append_inj (hname : IsWellFormed name) (hname' : IsWellFormed name')
    (he : text ++ .char ' ' :: name = text' ++ .char ' ' :: name') :
    text = text' ∧ name = name' := by
  have hassoc (front inner : Text) : front ++ .char ' ' :: tick :: (inner ++ [tick]) =
      (front ++ [.char ' ']) ++ tick :: inner ++ [tick] := by simp
  rcases hname with ⟨hplain, -⟩ | ⟨inner, rfl, hinner⟩ <;>
    rcases hname' with ⟨hplain', -⟩ | ⟨inner', rfl, hinner'⟩
  · exact append_cons_inj (hplain.not_mem (by decide) (by decide))
      (hplain'.not_mem (by decide) (by decide)) he
  · exact absurd (he.trans (hassoc text' inner')) hplain.ne_append_tick
  · exact absurd (he.symm.trans (hassoc text inner)) hplain'.ne_append_tick
  · rw [hassoc, hassoc] at he
    obtain ⟨hfront, rfl⟩ := append_cons_inj hinner hinner' (List.append_cancel_right he)
    exact ⟨List.append_cancel_right hfront, rfl⟩

end Name

namespace Synthesis

variable {table : SymbolTable} {config : Config} {eligible other : Eligible}
  {eligibles : List Eligible} {fragments : List Fragment}

/-- The parameters of the test, as they are written with the names left open. -/
def parameters (table : SymbolTable) (config : Config) (eligible : Eligible) : Text :=
  signature .deferred table (provider? table config eligible.function)

section

variable (table : SymbolTable) (config : Config) (eligible : Eligible)

/-- The annotation of the parameter, if there is one. -/
def annotation? : Option Text :=
  (provider? table config eligible.function).map fun provider =>
    written .deferred table provider.mark (providerArguments provider.mark.arguments)

/-- The name of the parameter as it is written. -/
def parameterName? : Option Text :=
  (provider? table config eligible.function).map fun provider =>
    Name.escape provider.parameter.name.plain

/-- The type of the parameter as it is written. -/
def type? : Option Text :=
  (provider? table config eligible.function).map fun provider =>
    provider.parameter.type.source Spelling.deferred

end

/-- Tests of one type of parameter have the same parameters if the rest of these is the same. -/
theorem parameters_eq_iff
    (hname : ∀ parameter ∈ eligible.function.parameters, Name.IsLegal parameter.name.plain)
    (hother : ∀ parameter ∈ other.function.parameters, Name.IsLegal parameter.name.plain)
    (htype : type? table config eligible = type? table config other) :
    parameters table config eligible = parameters table config other ↔
      annotation? table config eligible = annotation? table config other ∧
      parameterName? table config eligible = parameterName? table config other := by
  cases hp : provider? table config eligible.function with
  | none =>
    cases hq : provider? table config other.function with
    | none => simp [parameters, annotation?, parameterName?, hp, hq]
    | some provider => simp [type?, hp, hq] at htype
  | some provider =>
    cases hq : provider? table config other.function with
    | none => simp [type?, hp, hq] at htype
    | some provider' =>
      have hsource : provider.parameter.type.source Spelling.deferred =
          provider'.parameter.type.source Spelling.deferred := by simpa [type?, hp, hq] using htype
      have hescaped := (hname _ (mem_of_provider? hp).1).isWellFormed_escape
      have hescaped' := (hother _ (mem_of_provider? hq).1).isWellFormed_escape
      simp only [parameters, signature, declared, annotation?, parameterName?, hp, hq,
        Option.map_some, Option.getD_some, Option.some.injEq, hsource]
      constructor
      · intro he
        have hfront := List.append_cancel_right (List.append_cancel_right he)
        rw [List.append_assoc, List.append_assoc] at hfront
        exact hescaped.append_inj hescaped' hfront
      · rintro ⟨hmark, hsame⟩
        rw [hmark, hsame]

theorem identity_fragment (table : SymbolTable) (config : Config) (eligible : Eligible)
    (names : List Text) : UnitWriter.identity (fragment table config eligible names) =
      (.text (testName config eligible.function), .text (parameters table config eligible)) :=
  rfl

theorem AreFragments.isNamed (h : AreFragments table config eligibles fragments) :
    ∀ fragment ∈ fragments, fragment.isNamed = true := by
  rw [h.eq_map]
  exact List.forall_mem_map.mpr fun _ _ => rfl

/-- It is told of tests with one name and the same parameters. -/
theorem AreFragments.mem_clashes_iff (unit : Text) {name : Text}
    (h : AreFragments table config eligibles fragments) :
    .unitTwice unit name ∈ UnitWriter.clashes unit [] fragments ↔
      ∃ f g, [f, g].Sublist eligibles ∧ testName config f.function = name ∧
        testName config g.function = name ∧
        parameters table config f = parameters table config g := by
  rw [UnitWriter.mem_clashes_iff, h.eq_map]
  simp only [List.not_mem_nil, and_false, exists_false, false_or]
  constructor
  · rintro ⟨f, g, hpair, hname, hsame⟩
    obtain ⟨pair, hpair, heq⟩ := List.sublist_map_iff.mp hpair
    obtain ⟨f, _, rfl, rfl, hrest⟩ := List.map_eq_cons_iff.mp heq.symm
    obtain ⟨g, _, rfl, rfl, hnil⟩ := List.map_eq_cons_iff.mp hrest
    obtain rfl := List.map_eq_nil_iff.mp hnil
    rw [identity_fragment, identity_fragment] at hsame
    obtain ⟨hnames, hparameters⟩ := Prod.mk.inj hsame
    exact ⟨f, g, hpair, (Key.text.inj hnames).trans hname, hname, Key.text.inj hparameters⟩
  · rintro ⟨f, g, hpair, hf, hg, hsame⟩
    refine ⟨_, _, hpair.map _, hg, ?_⟩
    rw [identity_fragment, identity_fragment, hsame, hf, hg]

theorem notices_of_ends_write {source : Label} {writer writer' : UnitWriter} {key : UnitKey}
    {world world' : World}
    (h : Ends (UnitWriter.write source fragments) writer world (some key) writer' world')
    (hnamed : ∀ fragment ∈ fragments, fragment.isNamed = true) :
    world'.notices = world.notices ++ (UnitWriter.clashes key.qualifiedName [] fragments ++
      [.unitWritten key.qualifiedName fragments.length]) := by
  cases fragments with
  | nil => cases (ends_pure.mp h).1
  | cons first rest =>
    obtain ⟨file, -, ⟨-, hnone, -⟩ | ⟨package, -, hkey, -, files, -, rfl⟩⟩ :=
      UnitWriter.ends_write_cons_iff.mp h
    · cases hnone
    · cases hkey
      simp only [UnitWriter.told, Text.takeWhile_eq_self hnamed]

/-- Of a unit that is written for the first time it is told which of its tests are there twice: the
ones with one name and the same parameters. Where one name is given to two tests with one type of
parameter, or with no parameter, their parameters are the same if the annotations and the names of
the parameters are. -/
theorem twice_told_iff {source : Label} {writer writer' : UnitWriter} {key : UnitKey}
    {world world' : World} (hfragments : AreFragments table config eligibles fragments)
    (h : Ends (UnitWriter.write source fragments) writer world (some key) writer' world') :
    ∃ told, world'.notices = world.notices ++ told ∧
      (∀ name, .unitTwice key.qualifiedName name ∈ told ↔
        ∃ f g, [f, g].Sublist eligibles ∧ testName config f.function = name ∧
          testName config g.function = name ∧
          parameters table config f = parameters table config g) ∧
      ∀ f ∈ eligibles, ∀ g ∈ eligibles,
        (∀ parameter ∈ f.function.parameters, Name.IsLegal parameter.name.plain) →
        (∀ parameter ∈ g.function.parameters, Name.IsLegal parameter.name.plain) →
        type? table config f = type? table config g →
        (parameters table config f = parameters table config g ↔
          annotation? table config f = annotation? table config g ∧
          parameterName? table config f = parameterName? table config g) := by
  refine ⟨_, notices_of_ends_write h hfragments.isNamed, fun name => ?_,
    fun f _ g _ hf hg htype => parameters_eq_iff hf hg htype⟩
  rw [← hfragments.mem_clashes_iff key.qualifiedName]
  simp

/-- The tests come to a unit. -/
def isWritten (source : Label) (fragments : List Fragment) (writer : UnitWriter) (world : World) :
    Bool :=
  match (UnitWriter.write (m := StateM World) source fragments writer world).1.1 with
  | .ok (some _) => true
  | _ => false

theorem exists_written {source : Label} {writer : UnitWriter} {world : World}
    (h : isWritten source fragments writer world = true) :
    ∃ key writer' world',
      Ends (UnitWriter.write source fragments) writer world (some key) writer' world' := by
  rcases hrun : UnitWriter.write (m := StateM World) source fragments writer world with
    ⟨⟨result, writer'⟩, world'⟩
  rw [isWritten, hrun] at h
  split at h
  · next key hkey =>
    obtain rfl : result = .ok (some key) := hkey
    exact ⟨key, writer', world', hrun⟩
  · cases h

/-- The fragments of the functions, if all of them have one. -/
def fragmentsOf (table : SymbolTable) (config : Config) (eligibles : List Eligible) :
    List Fragment :=
  eligibles.filterMap (fragment? table config)

/-- One function twice, without a parameter, beside one with a parameter. -/
theorem card_told_twice :
    let eligibles := [cardOf "Card" [] [], cardOf "Card" [] [itemOf "item"], cardOf "Card" [] []]
    let fragments := fragmentsOf ⟨[], [], none⟩ galleryConfig eligibles
    AreFragments ⟨[], [], none⟩ galleryConfig eligibles fragments ∧
    ∃ key writer' world', Ends (UnitWriter.write (.string "Cards.kt") fragments)
      (.make (Path.parse "out") galleryConfig.suffix) (.ofFiles .empty) (some key) writer' world' ∧
    .unitTwice key.qualifiedName "CardScreenshotTest" ∈ world'.notices := by
  intro eligibles fragments
  have hfragments : AreFragments ⟨[], [], none⟩ galleryConfig eligibles fragments := rfl
  obtain ⟨key, writer', world', h⟩ : ∃ key writer' world',
      Ends (UnitWriter.write (.string "Cards.kt") fragments)
      (.make (Path.parse "out") galleryConfig.suffix) (.ofFiles .empty) (some key) writer' world' :=
    exists_written (by decide +kernel)
  obtain ⟨told, hnotices, htold, -⟩ := twice_told_iff hfragments h
  have hpair : [cardOf "Card" [] [], cardOf "Card" [] []].Sublist eligibles :=
    .cons_cons _ (.cons _ (.refl _))
  refine ⟨hfragments, key, writer', world', h, ?_⟩
  rw [hnotices]
  exact List.mem_append_right _ ((htold _).mpr ⟨_, _, hpair, rfl, rfl, rfl⟩)

/-- Overloads whose tests have one name and one type of parameter, and two names for it. -/
theorem card_pair_untold :
    let dark : Parameter := ⟨.string "dark", ⟨.string "kotlin.Boolean", [], false, false⟩, [],
      some (.other (.bool false) .null)⟩
    let first := cardOf "Card" [] [itemOf "item"]
    let second := cardOf "Card" [] [itemOf "other", dark]
    let fragments := fragmentsOf ⟨[], [], none⟩ galleryConfig [first, second]
    AreFragments ⟨[], [], none⟩ galleryConfig [first, second] fragments ∧
    testName galleryConfig first.function = testName galleryConfig second.function ∧
    (type? ⟨[], [], none⟩ galleryConfig first).isSome ∧
    type? ⟨[], [], none⟩ galleryConfig first = type? ⟨[], [], none⟩ galleryConfig second ∧
    ∃ key writer' world', Ends (UnitWriter.write (.string "Cards.kt") fragments)
      (.make (Path.parse "out") galleryConfig.suffix) (.ofFiles .empty) (some key) writer' world' ∧
    ∀ name, .unitTwice key.qualifiedName name ∉ world'.notices := by
  intro dark first second fragments
  have hfragments : AreFragments ⟨[], [], none⟩ galleryConfig [first, second] fragments := rfl
  obtain ⟨key, writer', world', h⟩ : ∃ key writer' world',
      Ends (UnitWriter.write (.string "Cards.kt") fragments)
      (.make (Path.parse "out") galleryConfig.suffix) (.ofFiles .empty) (some key) writer' world' :=
    exists_written (by decide +kernel)
  refine ⟨hfragments, rfl, rfl, rfl, key, writer', world', h, fun name htold => ?_⟩
  have htwice : .unitTwice key.qualifiedName name ∈
      UnitWriter.clashes key.qualifiedName [] fragments := by
    simpa [notices_of_ends_write h hfragments.isNamed, World.ofFiles] using htold
  obtain ⟨f, g, hpair, -, -, hsame⟩ := (hfragments.mem_clashes_iff _).mp htwice
  obtain ⟨rfl, hrest⟩ := List.cons.inj (hpair.eq_of_length rfl)
  obtain ⟨rfl, -⟩ := List.cons.inj hrest
  exact absurd hsame (by decide +kernel)

end Synthesis

end PreviewShots
