import PreviewShots.Name.Clash
import PreviewShots.Name.Implicit

/-!
# Spelled names

Escaping only puts backticks around the segments of a name, so a name without backticks
is what is left of it when they are dropped, and two such names are escaped to different
texts. A name needs no import if it is a member of a default package, or nested in one.
-/

namespace PreviewShots

namespace Text

variable {α : Type}

theorem joinWith_cons_cons (sep part next : List α) (parts : List (List α)) :
    joinWith sep (part :: next :: parts) = part ++ sep ++ joinWith sep (next :: parts) := rfl

theorem joinWith_cons (sep part : List α) {parts : List (List α)} (h : parts ≠ []) :
    joinWith sep (part :: parts) = part ++ sep ++ joinWith sep parts := by
  cases parts with
  | nil => exact absurd rfl h
  | cons => rfl

theorem mem_or_mem_of_mem_joinWith {sep : List α} {parts : List (List α)} {c : α}
    (h : c ∈ joinWith sep parts) : c ∈ sep ∨ ∃ part ∈ parts, c ∈ part := by
  induction parts with
  | nil => cases h
  | cons part parts ih =>
    cases parts with
    | nil => exact .inr ⟨part, List.mem_cons_self, h⟩
    | cons next parts =>
      rw [joinWith_cons_cons] at h
      rcases List.mem_append.mp h with h | h
      · exact (List.mem_append.mp h).symm.imp_right fun h => ⟨part, List.mem_cons_self, h⟩
      · exact (ih h).imp_right fun ⟨other, ho, hc⟩ => ⟨other, List.mem_cons_of_mem _ ho, hc⟩

theorem filter_joinWith (p : α → Bool) (sep : List α) (parts : List (List α)) :
    (joinWith sep parts).filter p = joinWith (sep.filter p) (parts.map (·.filter p)) := by
  induction parts with
  | nil => rfl
  | cons part parts ih =>
    cases parts with
    | nil => rfl
    | cons next parts => simpa [joinWith_cons_cons] using ih

theorem mem_joinWith_singleton {sep : α} {parts : List (List α)} (h : 2 ≤ parts.length) :
    sep ∈ joinWith [sep] parts := by
  match parts with
  | part :: next :: parts => simp [joinWith_cons_cons]

theorem infix_joinWith {part : List α} {parts : List (List α)} (sep : List α) (h : part ∈ parts) :
    part <:+: joinWith sep parts := by
  induction parts with
  | nil => simp at h
  | cons first parts ih =>
    cases parts with
    | nil =>
      obtain rfl := List.mem_singleton.mp h
      exact List.infix_rfl
    | cons next parts =>
      rw [joinWith_cons_cons]
      rcases List.mem_cons.mp h with rfl | h
      · rw [List.append_assoc]
        exact (List.prefix_append _ _).isInfix
      · exact (ih h).trans (List.suffix_append _ _).isInfix

variable [DecidableEq α]

theorem splitOn_of_not_mem {sep : α} {text : List α} (h : sep ∉ text) :
    splitOn sep text = [text] := by
  induction text with
  | nil => rfl
  | cons c cs ih =>
    simp only [List.mem_cons, not_or] at h
    simp [splitOn, Ne.symm h.1, ih h.2]

theorem splitOn_append_cons (sep : α) (text rest : List α) :
    splitOn sep (text ++ sep :: rest) = splitOn sep text ++ splitOn sep rest := by
  induction text with
  | nil => simp [splitOn]
  | cons c cs ih =>
    rcases hs : splitOn sep cs with _ | ⟨part, parts⟩
    · exact absurd hs (splitOn_ne_nil sep cs)
    · by_cases hc : c = sep <;> simp [splitOn, hc, ih, hs]

theorem splitOn_append {sep : α} {part : List α} (h : sep ∉ part) (rest : List α) :
    splitOn sep (part ++ sep :: rest) = part :: splitOn sep rest := by
  rw [splitOn_append_cons, splitOn_of_not_mem h, List.singleton_append]

/-- Parts without the separator are what the joined text is split into. -/
theorem splitOn_joinWith {sep : α} {parts : List (List α)} (hne : parts ≠ [])
    (h : ∀ part ∈ parts, sep ∉ part) : splitOn sep (joinWith [sep] parts) = parts := by
  induction parts with
  | nil => exact absurd rfl hne
  | cons part parts ih =>
    obtain ⟨hpart, hparts⟩ := List.forall_mem_cons.mp h
    cases parts with
    | nil => exact splitOn_of_not_mem hpart
    | cons next parts =>
      rw [joinWith_cons_cons, List.append_assoc, List.singleton_append, splitOn_append hpart,
        ih (by simp) hparts]

theorem sep_not_mem_of_mem_splitOn {sep : α} {text part : List α} (h : part ∈ splitOn sep text) :
    sep ∉ part := by
  induction text generalizing part with
  | nil =>
    obtain rfl := List.mem_singleton.mp h
    simp
  | cons c cs ih =>
    simp only [splitOn] at h
    split at h
    · rcases List.mem_cons.mp h with rfl | h
      · simp
      · exact ih h
    next hc =>
    split at h
    · obtain rfl := List.mem_singleton.mp h
      simpa using Ne.symm hc
    · next first parts hparts =>
      rcases List.mem_cons.mp h with rfl | h
      · simpa [Ne.symm hc] using ih (hparts ▸ List.mem_cons_self)
      · exact ih (hparts ▸ List.mem_cons_of_mem _ h)

theorem two_le_length_splitOn {sep : α} {text : List α} (h : sep ∈ text) :
    2 ≤ (splitOn sep text).length := by
  induction text with
  | nil => simp at h
  | cons c cs ih =>
    rcases hs : splitOn sep cs with _ | ⟨part, parts⟩
    · exact absurd hs (splitOn_ne_nil sep cs)
    by_cases hc : c = sep
    · simp [splitOn, hc, hs]
    · have hm : sep ∈ cs := by simpa [Ne.symm hc] using h
      simpa [splitOn, hc, hs] using ih hm

theorem subset_of_mem_splitOn {sep : α} {text part : List α} (h : part ∈ splitOn sep text) :
    part ⊆ text := by
  have hjoin := joinWith_splitOn sep text
  generalize splitOn sep text = parts at h hjoin
  subst hjoin
  induction parts with
  | nil => simp at h
  | cons first parts ih =>
    cases parts with
    | nil =>
      obtain rfl := List.mem_singleton.mp h
      exact List.Subset.refl _
    | cons next parts =>
      rw [joinWith_cons_cons]
      rcases List.mem_cons.mp h with rfl | h
      · exact List.subset_append_of_subset_left _ (List.subset_append_left _ _)
      · exact List.subset_append_of_subset_right _ (ih h)

end Text

namespace Name

open Text

variable {name other : Text}

-- ---------------------------------------------------------------------------
-- Escaping
-- ---------------------------------------------------------------------------

theorem isTicked_eq_false (h : tick ∉ name) : isTicked name = false := by
  cases name with
  | nil => rfl
  | cons c cs =>
    have hc : c ≠ tick := fun he => h (he ▸ List.mem_cons_self)
    simp [isTicked, hc]

/-- Without its backticks an escaped name is the name. -/
theorem filter_escape (h : tick ∉ name) : (escape name).filter (· ≠ tick) = name := by
  have hname : name.filter (· ≠ tick) = name := by
    rw [List.filter_eq_self]
    intro c hc
    simpa using fun he : c = tick => h (he ▸ hc)
  simp only [escape, isTicked_eq_false h, Bool.false_eq_true, ↓reduceIte]
  split
  · simpa using hname
  · exact hname

theorem filter_escapeQualified (h : tick ∉ name) :
    (escapeQualified name).filter (· ≠ tick) = name := by
  cases name with
  | nil => rfl
  | cons c cs =>
    have hsegments : ((splitOn (.char '.') (c :: cs)).map escape).map (·.filter (· ≠ tick)) =
        splitOn (.char '.') (c :: cs) := by
      rw [List.map_map]
      refine (List.map_congr_left fun segment hs => ?_).trans (List.map_id _)
      exact filter_escape fun ht => h (subset_of_mem_splitOn hs ht)
    have hdot : (Text.ofString ".").filter (· ≠ tick) = [.char '.'] := by decide
    simp only [escapeQualified, List.isEmpty_cons, Bool.false_eq_true, ↓reduceIte]
    rw [filter_joinWith, hsegments, hdot, joinWith_splitOn]

theorem escape_injective (h : tick ∉ name) (h' : tick ∉ other) (he : escape name = escape other) :
    name = other := by
  rw [← filter_escape h, ← filter_escape h', he]

theorem escapeQualified_injective (h : tick ∉ name) (h' : tick ∉ other)
    (he : escapeQualified name = escapeQualified other) : name = other := by
  rw [← filter_escapeQualified h, ← filter_escapeQualified h', he]

-- ---------------------------------------------------------------------------
-- Full and simple names
-- ---------------------------------------------------------------------------

theorem mem_escape {c : CodePoint} (h : c ∈ escape name) : c ∈ name ∨ c = tick := by
  simp only [escape] at h
  split at h
  · exact .inl h
  · split at h
    · simp only [List.mem_cons, List.mem_append, List.not_mem_nil, or_false] at h
      exact h.elim .inr id
    · exact .inl h

theorem escape_ne_nil (name : Text) : escape name ≠ [] := by
  cases name with
  | nil => decide
  | cons c cs =>
    simp only [escape]
    repeat' split
    all_goals simp

theorem mem_escapeQualified {c : CodePoint} (h : c ∈ escapeQualified name) :
    c ∈ name ∨ c = tick ∨ c = '.' := by
  simp only [escapeQualified] at h
  split at h
  · cases h
  · rcases mem_or_mem_of_mem_joinWith h with hdot | ⟨segment, hs, hc⟩
    · exact .inr (.inr (List.mem_singleton.mp hdot))
    · obtain ⟨part, hp, rfl⟩ := List.mem_map.mp hs
      exact (mem_escape hc).imp (subset_of_mem_splitOn hp ·) .inl

theorem escapeQualified_ne_nil (h : name ≠ []) : escapeQualified name ≠ [] := by
  rw [escapeQualified, List.isEmpty_eq_false_iff.mpr h, if_neg (by simp)]
  cases hs : splitOn (.char '.') name with
  | nil => exact absurd hs (splitOn_ne_nil _ _)
  | cons segment segments =>
    intro he
    exact escape_ne_nil segment (List.infix_nil.mp (he ▸ infix_joinWith _ List.mem_cons_self))

theorem dot_not_mem_escape_simple (name : Text) : .char '.' ∉ escape (simple name) := by
  intro h
  rcases mem_escape h with hm | ht
  · exact dot_not_mem_simple name hm
  · exact absurd ht (by decide)

theorem dot_mem_escapeQualified (h : .char '.' ∈ name) : .char '.' ∈ escapeQualified name := by
  have hne : name.isEmpty = false := by
    cases name with
    | nil => simp at h
    | cons c cs => rfl
  rw [escapeQualified, hne]
  exact mem_joinWith_singleton (by simpa using two_le_length_splitOn h)

/-- Something is left out of the simple name of a name with a dot. -/
theorem escapeQualified_ne_escape_simple (h : .char '.' ∈ name) (other : Text) :
    escapeQualified name ≠ escape (simple other) := by
  intro he
  exact dot_not_mem_escape_simple other (he ▸ dot_mem_escapeQualified h)

theorem simple_of_dot_not_mem (h : .char '.' ∉ name) : simple name = name :=
  afterLast_eq_self h

theorem escapeQualified_of_dot_not_mem (h : .char '.' ∉ name) (hne : name ≠ []) :
    escapeQualified name = escape (simple name) := by
  rw [escapeQualified, List.isEmpty_eq_false_iff.mpr hne, simple_of_dot_not_mem h]
  simp [splitOn_of_not_mem h, joinWith]

theorem simple_subset (name : Text) : simple name ⊆ name := fun _ hc =>
  List.mem_reverse.mp ((List.takeWhile_sublist _).subset (List.mem_reverse.mp hc))

theorem tick_not_mem_simple (h : tick ∉ name) : tick ∉ simple name :=
  fun ht => h (simple_subset name ht)

-- ---------------------------------------------------------------------------
-- Segments of escaped names
-- ---------------------------------------------------------------------------

theorem splitOn_escapeQualified (h : name ≠ []) :
    splitOn (.char '.') (escapeQualified name) = (splitOn (.char '.') name).map escape := by
  rw [escapeQualified, List.isEmpty_eq_false_iff.mpr h, if_neg (by simp)]
  refine splitOn_joinWith (by simpa using splitOn_ne_nil _ name) fun part hpart => ?_
  obtain ⟨segment, hsegment, rfl⟩ := List.mem_map.mp hpart
  intro hdot
  rcases mem_escape hdot with hm | ht
  · exact sep_not_mem_of_mem_splitOn hsegment hm
  · exact absurd ht (by decide)

theorem length_splitOn_escapeQualified (name : Text) :
    (splitOn (.char '.') (escapeQualified name)).length = (splitOn (.char '.') name).length := by
  by_cases h : name = []
  · subst h
    rfl
  · rw [splitOn_escapeQualified h, List.length_map]

theorem escapeQualified_escapeQualified (name : Text) :
    escapeQualified (escapeQualified name) = escapeQualified name := by
  by_cases h : name = []
  · subst h
    rfl
  · have hsegments := splitOn_escapeQualified h
    have hne := List.isEmpty_eq_false_iff.mpr (escapeQualified_ne_nil h)
    have hescaped : ((splitOn (.char '.') name).map escape).map escape =
        (splitOn (.char '.') name).map escape := by
      simp only [List.map_map, Function.comp_def, escape_escape]
    rw [escapeQualified, hne, if_neg (by simp), hsegments, hescaped, escapeQualified,
      List.isEmpty_eq_false_iff.mpr h, if_neg (by simp)]

/-- A full name that is escaped already stays as it is, and none loses or gains a segment. A
name without backticks is told by what it is escaped to, from which they are dropped. -/
theorem escapeQualified_faithful (name : Text) :
    escapeQualified (escapeQualified name) = escapeQualified name ∧
      (splitOn (.char '.') (escapeQualified name)).length = (splitOn (.char '.') name).length ∧
      (tick ∉ name → (escapeQualified name).filter (· ≠ tick) = name ∧
        ∀ other, tick ∉ other → escapeQualified name = escapeQualified other → name = other) :=
  ⟨escapeQualified_escapeQualified name, length_splitOn_escapeQualified name,
    fun h => ⟨filter_escapeQualified h, fun _ h' => escapeQualified_injective h h'⟩⟩

/-- A keyword within a name, an empty segment, one with a line feed at its end and one with a
blank in it. -/
theorem keyword_name_faithful :
    let name : Text := "app.in..inner\n.my card"
    tick ∉ name ∧ escapeQualified name = "app.`in`.``.inner\n.`my card`" ∧
      (escapeQualified name).filter (· ≠ tick) = name ∧
      ∀ other, tick ∉ other → escapeQualified name = escapeQualified other → name = other := by
  intro name
  obtain ⟨-, -, htold⟩ := escapeQualified_faithful name
  have hticks : tick ∉ name := by decide
  exact ⟨hticks, by decide +kernel, htold hticks⟩

-- ---------------------------------------------------------------------------
-- Default packages
-- ---------------------------------------------------------------------------

/-- A default package, a dot and one segment. -/
def IsMember (name : Text) : Prop :=
  ∃ package ∈ defaultPackages, ∃ segment : Text, .char '.' ∉ segment ∧
    name = package ++ .char '.' :: segment

/-- A class inside a class of a default package. -/
def IsNested (name : Text) : Prop :=
  ∃ package ∈ defaultPackages, ∃ c outer inner, Text.isUppercase c = true ∧
    name = package ++ .char '.' :: c :: outer ++ .char '.' :: inner

theorem IsMember.dot_mem (h : IsMember name) : .char '.' ∈ name := by
  obtain ⟨package, -, segment, -, rfl⟩ := h
  simp

theorem isImplicit_iff : isImplicit name = true ↔ ∃ package ∈ defaultPackages, ∃ c rest,
    Text.isUppercase c = true ∧ name = package ++ .char '.' :: c :: rest := by
  simp only [isImplicit, List.any_eq_true]
  refine exists_congr fun package => and_congr_right fun _ => ?_
  simp only [isClassOf]
  constructor
  · intro h
    split at h
    · next c rest hlead =>
      refine ⟨c, rest, h, ?_⟩
      rw [dropLead?_eq_some.mp hlead, List.append_assoc]
      rfl
    · simp at h
  · rintro ⟨c, rest, hc, rfl⟩
    have hlead : dropLead? (package ++ Text.ofString ".") (package ++ .char '.' :: c :: rest) =
        some (c :: rest) := dropLead?_eq_some.mpr (by simp [Text.ofString, Text.ofChars])
    simpa [hlead] using hc

theorem IsNested.isImplicit (h : IsNested name) : isImplicit name = true := by
  obtain ⟨package, hp, c, outer, inner, hc, rfl⟩ := h
  exact isImplicit_iff.mpr ⟨package, hp, c, outer ++ .char '.' :: inner, hc, by simp⟩

theorem not_isUppercase_of_mem_defaultPackages :
    ∀ package ∈ defaultPackages, ∀ c ∈ package, Text.isUppercase c = false := by
  decide +kernel

theorem IsNested.not_isMember (h : IsNested name) : ¬ IsMember name := by
  obtain ⟨package, -, c, outer, inner, hc, rfl⟩ := h
  rintro ⟨other, ho, segment, hs, he⟩
  -- the last dot is behind the class, which would then be a part of the default package
  have hclass : c ∈ other → False := fun hm => by
    simp [not_isUppercase_of_mem_defaultPackages other ho c hm] at hc
  rcases List.append_eq_append_iff.mp he with ⟨between, rfl, -⟩ | ⟨between, hother, hlast⟩
  · exact hclass (by simp)
  · cases between with
    | nil =>
      obtain rfl := (List.append_nil other).symm.trans hother.symm
      exact hclass (by simp)
    | cons d between =>
      obtain ⟨-, rfl⟩ := List.cons.inj hlast
      exact hs (by simp)

theorem isMember_of_isImplicit (h : isImplicit name = true) (hn : ¬ IsNested name) :
    IsMember name := by
  obtain ⟨package, hp, c, rest, hc, rfl⟩ := isImplicit_iff.mp h
  refine ⟨package, hp, c :: rest, fun hdot => ?_, rfl⟩
  rcases List.mem_cons.mp hdot with rfl | hdot
  · exact absurd hc (by decide +kernel)
  · obtain ⟨outer, inner, rfl⟩ := List.append_of_mem hdot
    exact hn ⟨package, hp, c, outer, inner, hc, by simp⟩

end Name

end PreviewShots
