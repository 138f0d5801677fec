import PreviewShots.Proofs.Name
import PreviewShots.Proofs.Spelling

/-!
# Names in a test file

The fragments of a file together decide how each name is spelled and which names are
imported. The names are told apart (`render_unambiguous`). One that stands by its simple
name alone and is not imported is a member of a default package, unless it is nested in a
class of one, or has no package itself (`bare_isMember_iff`).
-/

open PreviewShots.Task

namespace PreviewShots

namespace Synthesis

/-- The names that the tests of the functions are written with. -/
def usedNames (table : SymbolTable) (config : Config) (eligibles : List Eligible) : List Text :=
  eligibles.flatMap fun eligible => (names table config eligible).map (·.nameText)

end Synthesis

namespace TestFile

open Synthesis

variable {table : SymbolTable} {config : Config} {eligibles : List Eligible}
  {fragments : List Fragment} {name other : Text}

-- ---------------------------------------------------------------------------
-- Names in full and imports
-- ---------------------------------------------------------------------------

theorem mem_texts_required (h : AreFragments table config eligibles fragments) :
    name ∈ texts (required fragments) ↔
      name ∈ usedNames table config eligibles ∧ Name.isImplicit name = false := by
  simp [h.eq_map, texts, required, usedNames, Synthesis.fragment, List.map_flatMap,
    List.flatMap_map, Function.comp_def, ← and_assoc]

theorem mem_texts_referenced (h : AreFragments table config eligibles fragments) :
    name ∈ texts (referenced fragments) ↔ name ∈ usedNames table config eligibles := by
  have habsorb {p q : Prop} : p ∨ p ∧ q ↔ p := or_iff_left_of_imp And.left
  simp [h.eq_map, texts, referenced, usedNames, Synthesis.fragment, List.map_flatMap,
    List.flatMap_map, Function.comp_def, habsorb]

/-- The name clashes with another one of the names. -/
def Clashes (names : List Text) (name : Text) : Prop :=
  ∃ other ∈ names, Name.Clash name other

instance (names : List Text) (name : Text) : Decidable (Clashes names name) :=
  inferInstanceAs (Decidable (∃ other ∈ names, Name.Clash name other))

theorem mem_qualified (h : AreFragments table config eligibles fragments) :
    name ∈ qualified fragments ↔ name ∈ usedNames table config eligibles ∧
      Clashes (usedNames table config eligibles) name := by
  simp only [qualified, Name.mem_clashing, mem_texts_referenced h, Clashes]

theorem mem_imports (h : AreFragments table config eligibles fragments) :
    name ∈ imports fragments ↔ name ∈ usedNames table config eligibles ∧
      Name.isImplicit name = false ∧ ¬ Clashes (usedNames table config eligibles) name := by
  simp only [imports, List.mem_filter, mem_texts_required h, decide_eq_true_eq, mem_qualified h]
  grind

theorem imports_pairwise (fragments : List Fragment) : (imports fragments).Pairwise (· < ·) :=
  (Name.sorted_pairwise _).filter _

theorem imports_nodup (fragments : List Fragment) : (imports fragments).Nodup := by
  refine (imports_pairwise fragments).imp ?_
  rintro name _ hlt rfl
  exact List.lt_irrefl name hlt

theorem spelling_qualified (h : AreFragments table config eligibles fragments)
    (hn : name ∈ usedNames table config eligibles) :
    Template.spelling (qualified fragments) name =
      if Clashes (usedNames table config eligibles) name then Name.escapeQualified name
      else Name.escape (Name.simple name) := by
  simp only [Template.spelling, mem_qualified h, hn, true_and]

-- ---------------------------------------------------------------------------
-- Names are told apart
-- ---------------------------------------------------------------------------

/-- Two names of one simple spelling are the same, or they clash. -/
theorem eq_or_clash (hn : Name.tick ∉ name) (ho : Name.tick ∉ other)
    (h : Name.escape (Name.simple name) = Name.escape (Name.simple other)) :
    name = other ∨ Name.Clash name other := by
  have hsimple := Name.escape_injective (Name.tick_not_mem_simple hn) (Name.tick_not_mem_simple ho) h
  by_cases he : name = other
  · exact .inl he
  · exact .inr ⟨he, hsimple⟩

/-- A name in full and a simple one are spelled differently: the one in full has a dot,
or it is simple itself and would clash. -/
theorem escapeQualified_ne {names : List Text} (hn : name ∈ names) (hne : name ≠ [])
    (htick : Name.tick ∉ name) (htick' : Name.tick ∉ other) (hclash : Clashes names name)
    (hclear : ¬ Clashes names other) :
    Name.escapeQualified name ≠ Name.escape (Name.simple other) := by
  intro he
  by_cases hdot : .char '.' ∈ name
  · exact Name.escapeQualified_ne_escape_simple hdot other he
  · rw [Name.escapeQualified_of_dot_not_mem hdot hne] at he
    rcases eq_or_clash htick htick' he with rfl | ⟨hdiff, hsimple⟩
    · exact hclear hclash
    · exact hclear ⟨name, hn, Ne.symm hdiff, hsimple.symm⟩

/-- With these imports the spelling tells the names apart. -/
structure Unambiguous (names imports : List Text) (spell : Text → Text) : Prop where
  distinct : ∀ name ∈ names, ∀ other ∈ names, spell name = spell other → name = other
  clashing : ∀ name ∈ names, Clashes names name →
    spell name = Name.escapeQualified name ∧ name ∉ imports
  clear : ∀ name ∈ names, ¬ Clashes names name →
    spell name = Name.escape (Name.simple name) ∧
      imports.count name = if Name.isImplicit name then 0 else 1
  full_iff : ∀ name ∈ names, .char '.' ∈ name →
    (spell name = Name.escapeQualified name ↔ Clashes names name)
  used : imports ⊆ names
  simple : (imports.map Name.simple).Nodup
  ascending : imports.Pairwise (· < ·)

theorem unambiguous (h : AreFragments table config eligibles fragments)
    (hnonempty : ∀ name ∈ usedNames table config eligibles, name ≠ [])
    (hticks : ∀ name ∈ usedNames table config eligibles, Name.tick ∉ name) :
    Unambiguous (usedNames table config eligibles) (imports fragments)
      (Template.spelling (qualified fragments)) where
  distinct := by
    intro name hn other ho he
    rw [spelling_qualified h hn, spelling_qualified h ho] at he
    split at he
    · next hclash =>
      split at he
      · exact Name.escapeQualified_injective (hticks name hn) (hticks other ho) he
      · next hclear =>
        exact absurd he (escapeQualified_ne hn (hnonempty name hn) (hticks name hn)
          (hticks other ho) hclash hclear)
    · next hclear =>
      split at he
      · next hclash =>
        exact absurd he.symm (escapeQualified_ne ho (hnonempty other ho) (hticks other ho)
          (hticks name hn) hclash hclear)
      · rcases eq_or_clash (hticks name hn) (hticks other ho) he with rfl | hclash
        · rfl
        · exact absurd ⟨other, ho, hclash⟩ hclear
  clashing := by
    intro name hn hclash
    refine ⟨by rw [spelling_qualified h hn, if_pos hclash], ?_⟩
    rw [mem_imports h]
    exact fun hm => hm.2.2 hclash
  clear := by
    intro name hn hclear
    refine ⟨by rw [spelling_qualified h hn, if_neg hclear], ?_⟩
    rw [(imports_nodup fragments).count]
    cases hi : Name.isImplicit name <;> simp [mem_imports h, hn, hi, hclear]
  full_iff := by
    intro name hn hdot
    rw [spelling_qualified h hn]
    split
    · next hclash => exact iff_of_true rfl hclash
    · next hclear =>
      exact iff_of_false (Name.escapeQualified_ne_escape_simple hdot name).symm hclear
  used := fun name hn => ((mem_imports h).mp hn).1
  simple := by
    refine List.pairwise_map.mpr ((imports_nodup fragments).imp_of_mem ?_)
    intro name other hn ho hne hsimple
    exact ((mem_imports h).mp hn).2.2 ⟨other, ((mem_imports h).mp ho).1, hne, hsimple⟩
  ascending := imports_pairwise fragments

/-- A test file with the imports and the texts of its tests. -/
def written (package : Text) (imports tests : List Text) : Text :=
  Text.joinWith "\n" (packageLines package ++ importLines imports ++
    [Text.joinWith "\n\n" tests]) ++ "\n"

theorem infix_written (package : Text) (imports : List Text) {test : Text} {tests : List Text}
    (h : test ∈ tests) : test <:+: written package imports tests := by
  have hlast := Text.infix_joinWith (Text.ofString "\n")
    (List.mem_append_right (packageLines package ++ importLines imports)
      (List.mem_singleton_self (Text.joinWith "\n\n" tests)))
  exact ((Text.infix_joinWith "\n\n" h).trans hlast).trans (List.prefix_append _ _).isInfix

/-- The tests of a file are written with each name in its spelling. -/
theorem render_eq_written (h : AreFragments table config eligibles fragments)
    (hclean : ∀ eligible ∈ eligibles, IsClean table config eligible) (package : Text) :
    render package fragments = written package (imports fragments) (eligibles.map <|
      Synthesis.text (fun name => Template.spelling (qualified fragments) name.nameText)
        table config) := by
  have htests : fragments.map (·.render (qualified fragments)) = eligibles.map
      (Synthesis.text (fun name => Template.spelling (qualified fragments) name.nameText)
        table config) :=
    h.map_eq fun eligible he _ hf => render_of_fragment? hf (hclean eligible he) _
  simp only [render, written, htests]

theorem ne_nil_of_mem_usedNames
    (hclean : ∀ eligible ∈ eligibles, IsClean table config eligible)
    (hn : name ∈ usedNames table config eligibles) : name ≠ [] := by
  obtain ⟨eligible, he, hm⟩ := List.mem_flatMap.mp hn
  obtain ⟨label, hl, rfl⟩ := List.mem_map.mp hm
  exact (hclean eligible he).nonempty label hl

variable {session session' : Session} {world world' : World}

/-- The tests of the functions of a file refer to names that are told apart by their
spelling, each in full or by its simple name throughout. -/
theorem render_unambiguous
    (h : Ends (Session.synthesizeAll table eligibles) session world fragments session' world')
    (hclean : ∀ eligible ∈ eligibles, IsClean table session.config eligible)
    (hticks : ∀ name ∈ usedNames table session.config eligibles, Name.tick ∉ name)
    (package : Text) :
    let names := usedNames table session.config eligibles
    let spell := Template.spelling (qualified fragments)
    (∀ name, name ∈ texts (referenced fragments) ↔ name ∈ names) ∧
    Unambiguous names (imports fragments) spell ∧
    render package fragments = written package (imports fragments)
      (eligibles.map (Synthesis.text (fun name => spell name.nameText) table session.config)) := by
  obtain ⟨hfragments, -⟩ := Session.ends_synthesizeAll h
  exact ⟨fun name => mem_texts_referenced hfragments,
    unambiguous hfragments (fun name hn => ne_nil_of_mem_usedNames hclean hn) hticks,
    render_eq_written hfragments hclean package⟩

/-- A function with a marker that has the one argument. -/
def markedBy (marker : Text) (argument : Argument) : Eligible :=
  let marker : Annotation := .make (.string marker) .null [argument] none
  let function : FunctionDecl := ⟨.string "Card", .string "app", .isPublic, [marker], [], none,
    .kotlin, true, .string "Cards.kt"⟩
  ⟨⟨.string "Cards.kt", .string "app", .kotlin, [.function function]⟩, function, [marker]⟩

/-- Names that clash with those of another function or stand without a package, and
keywords. -/
def crowded : List Eligible :=
  [gallery, markedBy "app.Preview" ⟨.string "classes",
    .list [.classRef (.string "app.Int"), .classRef (.string "app.in.when"),
      .classRef (.string "Item"), .classRef (.string "kotlin.Any")]⟩]

theorem crowded_isClean : ∀ eligible ∈ crowded,
    IsClean ⟨[], [], none⟩ (Session.make (Path.parse "out") []).config eligible := by
  intro eligible he
  simp only [crowded, List.mem_cons, List.not_mem_nil, or_false] at he
  rcases he with rfl | rfl
  · exact ⟨by decide +kernel, by decide +kernel, by decide +kernel⟩
  · exact ⟨by decide +kernel, by decide +kernel, by decide +kernel⟩

theorem crowded_unambiguous :
    let session := Session.make (Path.parse "out") []
    (∀ eligible ∈ crowded, IsClean ⟨[], [], none⟩ session.config eligible) ∧
    (∀ name ∈ usedNames ⟨[], [], none⟩ session.config crowded, Name.tick ∉ name) ∧
    ∃ fragments session' world', Ends (Session.synthesizeAll ⟨[], [], none⟩ crowded) session
      (.ofFiles .empty) fragments session' world' ∧
    let names := usedNames ⟨[], [], none⟩ session.config crowded
    let spell := Template.spelling (qualified fragments)
    (∀ name, name ∈ texts (referenced fragments) ↔ name ∈ names) ∧
    Unambiguous names (imports fragments) spell ∧
    render "app" fragments = written "app" (imports fragments)
      (crowded.map (Synthesis.text (fun name => spell name.nameText) ⟨[], [], none⟩
        session.config)) := by
  intro session
  have hticks : ∀ name ∈ usedNames ⟨[], [], none⟩ session.config crowded, Name.tick ∉ name := by
    decide +kernel
  obtain ⟨fragments, session', world', h⟩ := exists_ends
    (Session.synthesizeAll ⟨[], [], none⟩ crowded) session (.ofFiles .empty) (by decide +kernel)
  exact ⟨crowded_isClean, hticks, fragments, session', world', h,
    render_unambiguous h crowded_isClean hticks "app"⟩

/-- A text that holds a delimiter. -/
def separated : List Eligible :=
  [markedBy "androidx.compose.ui.tooling.preview.Preview" ⟨.string "name", .string "\x1f"⟩]

/-- The delimiter of the text is paired with the one that opens the next name. -/
theorem separated_ambiguous :
    let session := Session.make (Path.parse "out") []
    let names := usedNames ⟨[], [], none⟩ session.config separated
    (∀ name ∈ names, name ≠ [] ∧ Name.tick ∉ name) ∧
    ∃ fragments session' world', Ends (Session.synthesizeAll ⟨[], [], none⟩ separated) session
      (.ofFiles .empty) fragments session' world' ∧
    ∀ spell imports, Unambiguous names imports spell →
      render "app" fragments ≠ written "app" imports
        (separated.map (Synthesis.text (fun name => spell name.nameText) ⟨[], [], none⟩
          session.config)) := by
  intro session names
  obtain ⟨fragments, session', world', h⟩ := exists_ends
    (Session.synthesizeAll ⟨[], [], none⟩ separated) session (.ofFiles .empty) (by decide +kernel)
  refine ⟨by decide +kernel, fragments, session', world', h, ?_⟩
  intro spell imports hspell he
  have hspelled : ∀ name ∈ names, spell name = Name.escape (Name.simple name) := by
    intro name hn
    exact (hspell.clear name hn ((by decide +kernel : ∀ name ∈ names, ¬ Clashes names name) name hn)).1
  let test := separated.head (by simp [separated])
  have htext : Synthesis.text (fun name => spell name.nameText) ⟨[], [], none⟩ session.config test =
      Synthesis.text (fun name => Name.escape (Name.simple name.nameText)) ⟨[], [], none⟩
        session.config test := by
    refine (isSpelled_text _ _ _).congr fun label hl => hspelled _ ?_
    exact List.mem_flatMap.mpr ⟨test, List.mem_singleton_self _, List.mem_map_of_mem hl⟩
  have hin : Synthesis.text (fun name => Name.escape (Name.simple name.nameText)) ⟨[], [], none⟩
      session.config test <:+: render "app" fragments := by
    rw [he, ← htext]
    exact infix_written "app" imports (List.mem_singleton_self _)
  rw [(Session.ends_synthesizeAll h).1.eq_map] at hin
  exact absurd hin (by decide +kernel)

-- ---------------------------------------------------------------------------
-- Names without an import
-- ---------------------------------------------------------------------------

/-- The name stands by its simple name alone and is not imported. -/
def IsBare (imports : List Text) (spell : Text → Text) (name : Text) : Prop :=
  spell name = Name.escape (Name.simple name) ∧ name ∉ imports

theorem isBare_iff (h : AreFragments table config eligibles fragments)
    (hn : name ∈ usedNames table config eligibles) (hne : name ≠ []) :
    IsBare (imports fragments) (Template.spelling (qualified fragments)) name ↔
      if Clashes (usedNames table config eligibles) name then .char '.' ∉ name
      else Name.isImplicit name = true := by
  rw [IsBare, spelling_qualified h hn, mem_imports h]
  split
  · next hclash =>
    constructor
    · rintro ⟨hfull, -⟩ hdot
      exact Name.escapeQualified_ne_escape_simple hdot name hfull
    · intro hdot
      exact ⟨Name.escapeQualified_of_dot_not_mem hdot hne, fun hm => hm.2.2 hclash⟩
  · next hclear => simp [hn, hclear]

/-- A bare name is a member of a default package, unless it is nested in a class of one or
clashes without having a package. -/
theorem isMember_of_isBare_iff (h : AreFragments table config eligibles fragments)
    (hn : name ∈ usedNames table config eligibles) (hne : name ≠ []) :
    (IsBare (imports fragments) (Template.spelling (qualified fragments)) name → Name.IsMember name) ↔
      if Clashes (usedNames table config eligibles) name then .char '.' ∈ name
      else ¬ Name.IsNested name := by
  rw [isBare_iff h hn hne]
  split
  · constructor
    · intro hmember
      by_cases hdot : .char '.' ∈ name
      · exact hdot
      · exact (hmember hdot).dot_mem
    · intro hdot hnot
      exact absurd hdot hnot
  · constructor
    · intro hmember hnested
      exact hnested.not_isMember (hmember hnested.isImplicit)
    · intro hnested himplicit
      exact Name.isMember_of_isImplicit himplicit hnested

/-- A test file is self-sufficient, as long as no name that clashes with no other is nested
in a class of a default package and each one that clashes has a package. -/
theorem bare_isMember_iff
    (h : Ends (Session.synthesizeAll table eligibles) session world fragments session' world')
    (hclean : ∀ eligible ∈ eligibles, IsClean table session.config eligible) (package : Text) :
    let names := usedNames table session.config eligibles
    let spell := Template.spelling (qualified fragments)
    render package fragments = written package (imports fragments)
      (eligibles.map (Synthesis.text (fun name => spell name.nameText) table session.config)) ∧
    ((∀ name ∈ names, IsBare (imports fragments) spell name → Name.IsMember name) ↔
      ∀ name ∈ names, if Clashes names name then .char '.' ∈ name else ¬ Name.IsNested name) := by
  obtain ⟨hfragments, -⟩ := Session.ends_synthesizeAll h
  refine ⟨render_eq_written hfragments hclean package, ?_⟩
  exact forall₂_congr fun name hn =>
    isMember_of_isBare_iff hfragments hn (ne_nil_of_mem_usedNames hclean hn)

theorem crowded_isMember_iff :
    let session := Session.make (Path.parse "out") []
    (∀ eligible ∈ crowded, IsClean ⟨[], [], none⟩ session.config eligible) ∧
    ∃ fragments session' world', Ends (Session.synthesizeAll ⟨[], [], none⟩ crowded) session
      (.ofFiles .empty) fragments session' world' ∧
    let names := usedNames ⟨[], [], none⟩ session.config crowded
    let spell := Template.spelling (qualified fragments)
    render "app" fragments = written "app" (imports fragments)
      (crowded.map (Synthesis.text (fun name => spell name.nameText) ⟨[], [], none⟩
        session.config)) ∧
    ((∀ name ∈ names, IsBare (imports fragments) spell name → Name.IsMember name) ↔
      ∀ name ∈ names, if Clashes names name then .char '.' ∈ name else ¬ Name.IsNested name) := by
  intro session
  obtain ⟨fragments, session', world', h⟩ := exists_ends
    (Session.synthesizeAll ⟨[], [], none⟩ crowded) session (.ofFiles .empty) (by decide +kernel)
  exact ⟨crowded_isClean, fragments, session', world', h, bare_isMember_iff h crowded_isClean "app"⟩

/-- A class nested in one of a default package. -/
def entries : List Eligible :=
  [markedBy "androidx.compose.ui.tooling.preview.Preview"
    ⟨.string "kind", .classRef (.string "kotlin.collections.Map.Entry")⟩]

theorem entry_not_isMember :
    let session := Session.make (Path.parse "out") []
    ∃ fragments session' world', Ends (Session.synthesizeAll ⟨[], [], none⟩ entries) session
      (.ofFiles .empty) fragments session' world' ∧
    Text.ofString "(kind = Entry::class)" <:+: render "app" fragments ∧
    ∃ name ∈ usedNames ⟨[], [], none⟩ session.config entries,
      IsBare (imports fragments) (Template.spelling (qualified fragments)) name ∧
        ¬ Name.IsMember name := by
  intro session
  obtain ⟨fragments, session', world', h⟩ := exists_ends
    (Session.synthesizeAll ⟨[], [], none⟩ entries) session (.ofFiles .empty) (by decide +kernel)
  obtain ⟨hfragments, -⟩ := Session.ends_synthesizeAll h
  have hnested : Name.IsNested "kotlin.collections.Map.Entry" :=
    ⟨"kotlin.collections", by decide +kernel, 'M', "ap", "Entry", by decide +kernel, rfl⟩
  have hused : Text.ofString "kotlin.collections.Map.Entry" ∈
      usedNames ⟨[], [], none⟩ session.config entries := by
    decide +kernel
  refine ⟨fragments, session', world', h, ?_, _, hused, ?_, hnested.not_isMember⟩
  · rw [hfragments.eq_map]
    decide +kernel
  · rw [isBare_iff hfragments hused (by decide)]
    decide +kernel

end TestFile

end PreviewShots
