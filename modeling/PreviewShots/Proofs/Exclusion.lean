import PreviewShots.Command
import PreviewShots.Proofs.Lowercase

/-!
# Excluded fragments

The fragments that the command line gives are joined to one option, and taken apart at commas
when the options are read, where blanks around them are dropped. A path is excluded if it holds
one of these pieces. A path that holds a fragment holds its pieces, since no letter has another
lower case for what stands behind a comma or a blank (`Config.Occurs.of_mem_fragments`). So the
fragments exclude what they ask for just if each of them has a piece and each piece holds one of
them, as it is if they have no commas and no blanks at their ends (`Command.excluded_iff`).
-/

namespace PreviewShots

-- ---------------------------------------------------------------------------
-- Fragments on the command line
-- ---------------------------------------------------------------------------

namespace Settings

/-- The values that the options for excluded fragments have among the words, in order. -/
def excludedIn : List Word → List Label
  | [] => []
  | .flag .exclude (some value) :: rest => attached value :: excludedIn rest
  | .flag .exclude none :: .value value :: rest => .string value :: excludedIn rest
  | _ :: rest => excludedIn rest

/-- The fragments given, with more of them. -/
def withMore (excluded : Option (List Label)) (labels : List Label) : Option (List Label) :=
  labels.foldl (fun excluded label => some (excluded.getD [] ++ [label])) excluded

theorem withMore_some (given labels : List Label) :
    withMore (some given) labels = some (given ++ labels) := by
  induction labels generalizing given with
  | nil => simp [withMore]
  | cons label labels ih => simpa [withMore] using ih (given ++ [label])

theorem withMore_none {labels : List Label} (h : labels ≠ []) :
    withMore none labels = some labels := by
  cases labels with
  | nil => exact absurd rfl h
  | cons label labels => exact withMore_some [label] labels

theorem withMore_append (excluded : Option (List Label)) (labels more : List Label) :
    withMore excluded (labels ++ more) = withMore (withMore excluded labels) more :=
  List.foldl_append

/-- What an option with the value adds to the excluded fragments. -/
def excludedBy (flag : Flag) (value : Label) : List Label :=
  if flag = .exclude then [value] else []

theorem excludedIn_attached (flag : Flag) (value : Text) (rest : List Word) :
    excludedIn (.flag flag (some value) :: rest) =
      excludedBy flag (attached value) ++ excludedIn rest := by
  cases flag <;> rfl

theorem excludedIn_next (flag : Flag) (value : Text) (rest : List Word) :
    excludedIn (.flag flag none :: .value value :: rest) =
      excludedBy flag (.string value) ++ excludedIn rest := by
  cases flag <;> rfl

theorem excluded_of_apply {settings after : Settings} {flag : Flag} {value : Label}
    (h : settings.apply flag value = some after) :
    after.excluded = withMore settings.excluded (excludedBy flag value) := by
  cases flag with
  | mode =>
    obtain ⟨mode, -, rfl⟩ := Option.map_eq_some_iff.mp h
    rfl
  | help => cases h
  | debug => cases h
  | _ =>
    cases h
    rfl

theorem readLetters_ne_run (next : Option Word) (letters : Text) (after : Settings) :
    readLetters next letters ≠ .run after := by
  fun_induction readLetters next letters with
  | case4 _ _ _ _ ih => exact ih
  | _ => exact nofun

/-- Reading adds the values of the options for excluded fragments, and no others. -/
theorem excluded_of_read {stray : Bool} {settings after : Settings} {words : List Word}
    (h : read stray settings words = .run after) :
    after.excluded = withMore settings.excluded (excludedIn words) := by
  fun_induction read stray settings words with
  | case1 | case3 | case7 | case9 | case10 => cases h
  | case2 =>
    cases h
    rfl
  | case4 => exact absurd h (readLetters_ne_run _ _ _)
  | case5 stray settings rest ih => exact ih h
  | case6 stray settings flag value rest next happly ih =>
    rw [excludedIn_attached, withMore_append, ← excluded_of_apply happly, ih h]
  | case8 stray settings flag value rest _ _ next happly ih =>
    rw [excludedIn_next, withMore_append, ← excluded_of_apply happly, ih h]
  | case11 stray settings head rest _ _ _ hattached hnext halone ih =>
    -- an option without a value of its own has been read above, whatever follows it
    have hhead : excludedIn (head :: rest) = excludedIn rest := by
      cases head with
      | flag flag value =>
        cases value with
        | none => exact (halone flag rfl).elim
        | some value => exact (hattached flag value rfl).elim
      | _ => rfl
    rw [hhead, ih h]

/-- The excluded fragments of a command line are those that it gives. -/
theorem excluded_of_parse {words : List Text} {settings : Settings}
    (h : parse words = .run settings) :
    settings.excluded = withMore none (excludedIn (classifyAll words)) := by
  simp only [parse] at h
  split at h
  · cases h
  · exact excluded_of_read h

end Settings

-- ---------------------------------------------------------------------------
-- Fragments of a configuration
-- ---------------------------------------------------------------------------

namespace Config

open Text

variable {given pieces : List Text} {path : Text}

/-- The path holds the fragment, whatever the letter case and the direction of its slashes. -/
def Occurs (fragment path : Text) : Prop :=
  holds (lower fragment) (lower (FileName.slashed path)) = true

instance (fragment path : Text) : Decidable (Occurs fragment path) :=
  inferInstanceAs (Decidable (_ = true))

/-- Of joined fragments the pieces are those of each. -/
theorem fragments_joinWith (given : List Text) :
    fragments (joinWith "," given) = given.flatMap fragments := by
  have hcomma (text rest : Text) :
      fragments (text ++ "," ++ rest) = fragments text ++ fragments rest := by
    have hsplit := splitOn_append_cons (.char ',') text rest
    simp only [fragments, List.append_assoc]
    rw [show Text.ofString "," ++ rest = .char ',' :: rest from rfl, hsplit, List.map_append,
      List.filter_append]
  induction given with
  | nil => rfl
  | cons text given ih =>
    cases given with
    | nil => simp [joinWith]
    | cons next given => rw [joinWith_cons_cons, hcomma, ih, ← List.flatMap_cons]

example : fragments (joinWith "," [" /legacy/ , ", "/demo/"]) = ["/legacy/", "/demo/"] := by
  decide +kernel

theorem mem_fragments {text piece : Text} :
    piece ∈ fragments text ↔
      (∃ part ∈ splitOn (.char ',') text, trim part = piece) ∧ piece ≠ [] := by
  simp [fragments]

/-- No piece is left of commas and blanks. -/
theorem fragments_eq_nil {text : Text} : fragments text = [] ↔ ∀ c ∈ text, inRanges stops c := by
  have hparts : fragments text = [] ↔ ∀ part ∈ splitOn (.char ',') text, ∀ c ∈ part, isBlank c := by
    simp only [← trim_eq_nil, fragments, List.filter_eq_nil_iff, List.forall_mem_map]
    simp
  rw [hparts]
  constructor
  · intro h c hc
    rw [← joinWith_splitOn (.char ',') text] at hc
    rcases mem_or_mem_of_mem_joinWith hc with hc | ⟨part, hpart, hc⟩
    · exact inRanges_stops.mpr (.inl (List.mem_singleton.mp hc))
    · exact inRanges_stops.mpr (.inr (h part hpart c hc))
  · intro h part hpart c hc
    rcases inRanges_stops.mp (h c (subset_of_mem_splitOn hpart hc)) with rfl | hblank
    · exact absurd hc (sep_not_mem_of_mem_splitOn hpart)
    · exact hblank

/-- A piece is more than commas and blanks. -/
theorem not_stops_of_mem_fragments {text piece : Text} (h : piece ∈ fragments text) :
    ¬ ∀ c ∈ piece, inRanges stops c := by
  obtain ⟨⟨part, hpart, rfl⟩, hne⟩ := mem_fragments.mp h
  intro hstops
  have hblank : ∀ c ∈ trim part, isBlank c := by
    intro c hc
    rcases inRanges_stops.mp (hstops c hc) with rfl | hblank
    · exact absurd (trim_subset part hc) (sep_not_mem_of_mem_splitOn hpart)
    · exact hblank
  exact hne ((trim_trim part).symm.trans (trim_eq_nil.mpr hblank))

/-- A fragment that is kept in one piece, as it is. -/
structure IsWhole (fragment : Text) : Prop where
  ne_nil : fragment ≠ []
  no_comma : .char ',' ∉ fragment
  trimmed : trim fragment = fragment

instance (fragment : Text) : Decidable (IsWhole fragment) :=
  decidable_of_iff (fragment ≠ [] ∧ .char ',' ∉ fragment ∧ trim fragment = fragment)
    ⟨fun ⟨hne, hcomma, htrim⟩ => ⟨hne, hcomma, htrim⟩, fun h => ⟨h.ne_nil, h.no_comma, h.trimmed⟩⟩

theorem IsWhole.fragments_eq {fragment : Text} (h : IsWhole fragment) :
    fragments fragment = [fragment] := by
  simp [fragments, splitOn_of_not_mem h.no_comma, h.trimmed, h.ne_nil]

theorem flatMap_fragments_of_isWhole (h : ∀ fragment ∈ given, IsWhole fragment) :
    given.flatMap fragments = given := by
  induction given with
  | nil => rfl
  | cons first given ih =>
    obtain ⟨hfirst, hgiven⟩ := List.forall_mem_cons.mp h
    rw [List.flatMap_cons, hfirst.fragments_eq, ih hgiven, List.singleton_append]

-- ---------------------------------------------------------------------------
-- Fragments that occur in a path
-- ---------------------------------------------------------------------------

theorem occurs_iff {fragment : Text} :
    Occurs fragment path ↔ lower fragment <:+: lower (FileName.slashed path) := by
  rw [Occurs, holds_iff]
  simp only [List.IsInfix, eq_comm]

/-- Where a fragment occurs, so do its pieces. -/
theorem Occurs.of_mem_fragments {fragment piece : Text} (h : Occurs fragment path)
    (hm : piece ∈ fragments fragment) : Occurs piece path := by
  obtain ⟨⟨part, hpart, rfl⟩, -⟩ := mem_fragments.mp hm
  rw [occurs_iff] at h ⊢
  have hpiece := lower_infix_of_mem_splitOn (endsWord_of_stop (by decide)) hpart
  exact ((lower_trim_isInfix part).trans hpiece).trans h

theorem slashed_of_not_mem (h : .char '\\' ∉ path) : FileName.slashed path = path := by
  have hid : ∀ c ∈ path, (if c = .char '\\' then .char '/' else c) = c := by
    intro c hc
    refine if_neg ?_
    rintro rfl
    exact h hc
  exact (List.map_congr_left hid).trans (List.map_id path)

theorem backslash_not_mem_slashed (path : Text) : .char '\\' ∉ FileName.slashed path := by
  intro h
  obtain ⟨c, -, hc⟩ := List.mem_map.mp h
  split at hc
  · cases hc
  · next hne => exact hne hc

/-- A fragment with a backslash occurs in no path. -/
theorem Occurs.no_backslash {fragment : Text} (h : Occurs fragment path) :
    .char '\\' ∉ fragment := by
  intro hm
  have hlower := (occurs_iff.mp h).subset (backslash_mem_lower.mpr hm)
  exact backslash_not_mem_slashed path (backslash_mem_lower.mp hlower)

theorem occurs_self {fragment : Text} (h : .char '\\' ∉ fragment) : Occurs fragment fragment := by
  have hslashed := slashed_of_not_mem h
  exact occurs_iff.mpr (hslashed.symm ▸ List.infix_rfl)

/-- Each of the fragments that can occur in a path holds one of the others. -/
def Covers (others given : List Text) : Prop :=
  ∀ fragment ∈ given, .char '\\' ∉ fragment → ∃ other ∈ others, lower other <:+: lower fragment

theorem covers_iff {others : List Text} : Covers others given ↔
    ∀ path, (∃ fragment ∈ given, Occurs fragment path) → ∃ other ∈ others, Occurs other path := by
  constructor
  · rintro h path ⟨fragment, hm, hoccurs⟩
    obtain ⟨other, ho, hlower⟩ := h fragment hm hoccurs.no_backslash
    exact ⟨other, ho, occurs_iff.mpr (hlower.trans (occurs_iff.mp hoccurs))⟩
  · intro h fragment hm hslash
    obtain ⟨other, ho, hoccurs⟩ := h fragment ⟨fragment, hm, occurs_self hslash⟩
    rw [occurs_iff, slashed_of_not_mem hslash] at hoccurs
    exact ⟨other, ho, hoccurs⟩

/-- A fragment holds its pieces, and none is held by commas and blanks alone. -/
theorem covers_pieces_iff :
    Covers (given.flatMap fragments) given ↔ ∀ fragment ∈ given, fragments fragment ≠ [] := by
  constructor
  · intro h fragment hm hnone
    have hstops := fragments_eq_nil.mp hnone
    have hslash : .char '\\' ∉ fragment := fun hc => absurd (hstops _ hc) (by decide)
    obtain ⟨piece, hpiece, hlower⟩ := h fragment hm hslash
    obtain ⟨holder, -, hpiece⟩ := List.mem_flatMap.mp hpiece
    refine not_stops_of_mem_fragments hpiece ?_
    have hlowered := isCaseless_stops.forall_mem_lower.mpr hstops
    exact isCaseless_stops.forall_mem_lower.mp fun c hc => hlowered c (hlower.subset hc)
  · intro h
    refine covers_iff.mpr fun path ⟨fragment, hm, hoccurs⟩ => ?_
    obtain ⟨piece, hpiece⟩ := List.exists_mem_of_ne_nil _ (h fragment hm)
    exact ⟨piece, List.mem_flatMap_of_mem hm hpiece, hoccurs.of_mem_fragments hpiece⟩

theorem holdsAny?_map_string (text : Text) (given : List Text) :
    holdsAny? text (given.map .string) = some (given.any fun f => holds (lower f) text) := by
  induction given with
  | nil => rfl
  | cons first given ih =>
    simp only [List.map_cons, holdsAny?, ih, List.any_cons]
    split
    · next h => simp [h]
    · next h => simp [Bool.eq_false_iff.mpr h]

theorem isExcluded?_of_excludedPaths {config : Config}
    (h : config.excludedPaths = pieces.map .string) (path : Text) :
    config.isExcluded? path = some (decide (∃ piece ∈ pieces, Occurs piece path)) := by
  rw [isExcluded?, h, holdsAny?_map_string, Option.some_inj, Bool.eq_iff_iff, List.any_eq_true,
    decide_eq_true_eq]
  rfl

end Config

-- ---------------------------------------------------------------------------
-- The command
-- ---------------------------------------------------------------------------

namespace Command

open Config

variable {words given : List Text} {settings : Settings}

theorem override?_of_excluded (h : settings.excluded = some (given.map .string)) (base : Options) :
    ∃ options, override? settings base = some options ∧
      options.lookup Options.excludedPaths = some (.string (Text.joinWith "," given)) := by
  have hreport : (Options.excludedPaths == Options.reportPath) = false := by decide
  simp only [override?, h, Label.texts?_map_string, Option.map_some, Option.bind_eq_bind,
    Option.bind_some]
  split
  · exact ⟨_, rfl, by simp [Keyed.lookup_put, exclude, hreport]⟩
  · exact ⟨_, rfl, by simp [Keyed.lookup_put, exclude]⟩

theorem excludedPaths_make (directory : Path) {options : Options}
    (h : options.lookup Options.excludedPaths = some (.string (Text.joinWith "," given))) :
    (Session.make directory options).config.excludedPaths =
      (given.flatMap fragments).map .string := by
  simp only [Session.make, ofOptions, h, Json.plain, fragments_joinWith]

/-- A path is excluded if it holds a piece of a fragment. The same paths hold a fragment just if
each fragment has a piece and each piece that can occur in a path holds a fragment, as it is if
the fragments are whole. -/
theorem excluded_iff (hparse : Settings.parse words = .run settings)
    (hgiven : Settings.excludedIn (Settings.classifyAll words) = given.map .string)
    (hne : given ≠ []) (base : Options) (directory : Path) :
    ∃ options, override? settings base = some options ∧
      (∀ path, (Session.make directory options).config.isExcluded? path =
        some (decide (∃ piece ∈ given.flatMap fragments, Occurs piece path))) ∧
      ((∀ path, (Session.make directory options).config.isExcluded? path =
          some (decide (∃ fragment ∈ given, Occurs fragment path))) ↔
        (∀ fragment ∈ given, fragments fragment ≠ []) ∧ Covers given (given.flatMap fragments)) ∧
      ((∀ fragment ∈ given, IsWhole fragment) →
        ∀ path, (Session.make directory options).config.isExcluded? path =
          some (decide (∃ fragment ∈ given, Occurs fragment path))) := by
  have hexcluded : settings.excluded = some (given.map .string) := by
    rw [Settings.excluded_of_parse hparse, hgiven]
    exact Settings.withMore_none (by simpa using hne)
  obtain ⟨options, hoptions, hlookup⟩ := override?_of_excluded hexcluded base
  have hpieces := isExcluded?_of_excludedPaths (excludedPaths_make directory hlookup)
  refine ⟨options, hoptions, hpieces, ?_, fun hwhole path => ?_⟩
  · rw [← covers_pieces_iff, covers_iff, covers_iff]
    simp only [hpieces, Option.some_inj, decide_eq_decide]
    exact ⟨fun h => ⟨fun path => (h path).mpr, fun path => (h path).mp⟩,
      fun h path => ⟨h.2 path, h.1 path⟩⟩
  · rw [hpieces, flatMap_fragments_of_isWhole hwhole]

/-- Without commas, and without blanks at the ends. -/
theorem legacy_demo_excluded : ∃ settings options,
    Settings.parse ["-e", "/legacy/", "--exclude=Demo"] = .run settings ∧
      override? settings [] = some options ∧
      ∀ path, (Session.make (Path.parse "out") options).config.isExcluded? path =
        some (decide (Occurs "/legacy/" path ∨ Occurs "Demo" path)) := by
  obtain ⟨options, hoptions, -, -, hwhole⟩ :=
    @excluded_iff ["-e", "/legacy/", "--exclude=Demo"] ["/legacy/", "Demo"] _ rfl rfl
      (List.cons_ne_nil _ _) [] (Path.parse "out")
  refine ⟨_, options, rfl, hoptions, fun path => ?_⟩
  have hgiven : ∀ fragment ∈ (["/legacy/", "Demo"] : List Text), IsWhole fragment := by decide
  simpa using hwhole hgiven path

/-- The path holds a piece of the fragment, and not the fragment. -/
theorem torn_excluded : ∃ settings options,
    Settings.parse ["-e", "/a,b/"] = .run settings ∧
      Settings.excludedIn (Settings.classifyAll ["-e", "/a,b/"]) = [.string "/a,b/"] ∧
      override? settings [] = some options ∧
      (Session.make (Path.parse "out") options).config.isExcluded? "src/a/Card.kt" = some true ∧
      ¬ Occurs "/a,b/" "src/a/Card.kt" :=
  ⟨_, _, rfl, rfl, rfl, by decide +kernel, by decide +kernel⟩

end Command

end PreviewShots
