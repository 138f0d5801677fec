import Mathlib.Data.List.TakeWhile
import PreviewShots.VisibilityFix

/-!
# Private declarations in a text

A declaration of a function is the keyword, white space, `fun`, white space and the name, with
the end of a word behind it. The fix finds these (`isSome_occurrence?_iff`). Where the name is
a word, they can be read off the text word by word (`declares_iff`).
-/

namespace PreviewShots.VisibilityFix

open PreviewShots.Text

variable {name other text after gap : Text} {c : CodePoint} {length : Nat}

/-- White space, some of it. -/
def IsGap (gap : Text) : Prop :=
  gap ≠ [] ∧ ∀ c ∈ gap, isBlank c

/-- What makes a declaration of the function out of the keyword in front of it. -/
def IsDeclaration (name piece : Text) : Prop :=
  ∃ gap gap', IsGap gap ∧ IsGap gap' ∧ piece = gap ++ (ofString "fun" ++ (gap' ++ name))

/-- The text starts with a private declaration of the function, and a word ends behind it. -/
def Declares (name text : Text) : Prop :=
  ∃ piece after, IsDeclaration name piece ∧ isBoundary name.getLast? after.head? ∧
    text = keyword ++ (piece ++ after)

theorem nameAfterBlanks?_eq_some (h : nameAfterBlanks? name text = some length) :
    ∃ gap after, IsGap gap ∧ isBoundary name.getLast? after.head? ∧
      text = gap ++ (name ++ after) ∧ length = gap.length + name.length := by
  induction text generalizing length with
  | nil => cases h
  | cons c cs ih =>
    unfold nameAfterBlanks? at h
    split at h
    · cases h
    next hblank =>
    replace hblank : isBlank c := by simpa using hblank
    split at h
    · next n hn =>
      obtain ⟨gap, after, hgap, hboundary, rfl, rfl⟩ := ih hn
      obtain rfl := Option.some.inj h
      refine ⟨c :: gap, after, ⟨by simp, ?_⟩, hboundary, rfl, by simp; omega⟩
      exact List.forall_mem_cons.mpr ⟨hblank, hgap.2⟩
    · split at h
      next hstarts =>
        obtain rfl := Option.some.inj h
        unfold startsWithName at hstarts
        split at hstarts
        next after hafter =>
          obtain rfl := dropLead?_eq_some.mp hafter
          exact ⟨[c], after, ⟨by simp, by simpa using hblank⟩, hstarts, rfl, by simp; omega⟩
        · cases hstarts
      · cases h

theorem isSome_nameAfterBlanks? (hgap : IsGap gap)
    (hboundary : isBoundary name.getLast? after.head?) :
    (nameAfterBlanks? name (gap ++ (name ++ after))).isSome := by
  obtain ⟨hne, hblank⟩ := hgap
  induction gap with
  | nil => exact absurd rfl hne
  | cons c gap ih =>
    obtain ⟨hc, hblank⟩ := List.forall_mem_cons.mp hblank
    simp only [List.cons_append, nameAfterBlanks?, hc, Bool.not_true, Bool.false_eq_true,
      ↓reduceIte]
    split
    · rfl
    next hnone =>
    cases gap with
    | nil => simp [startsWithName, dropLead?_eq_some.mpr rfl, hboundary]
    | cons d gap =>
      have hsome := ih (by simp) hblank
      rw [hnone] at hsome
      cases hsome

section

variable {p : CodePoint → Bool} {pre : Text}

theorem dropWhile_eq_self (h : after.takeWhile p = []) : after.dropWhile p = after := by
  have hsplit := List.takeWhile_append_dropWhile (p := p) (l := after)
  rwa [h, List.nil_append] at hsplit

theorem takeWhile_append (hpre : ∀ c ∈ pre, p c) (hafter : after.takeWhile p = []) :
    (pre ++ after).takeWhile p = pre := by
  rw [List.takeWhile_append_of_pos hpre, hafter, List.append_nil]

theorem takeWhile_dropWhile (text : Text) : (text.dropWhile p).takeWhile p = [] := by
  induction text with
  | nil => rfl
  | cons c cs ih => by_cases hc : p c <;> simp [hc, ih]

theorem dropWhile_append (hpre : ∀ c ∈ pre, p c) (hafter : after.takeWhile p = []) :
    (pre ++ after).dropWhile p = after := by
  rw [List.dropWhile_append_of_pos hpre, dropWhile_eq_self hafter]

end

theorem declaration?_eq_some (h : declaration? name text = some length) :
    ∃ piece after, IsDeclaration name piece ∧ isBoundary name.getLast? after.head? ∧
      text = piece ++ after ∧ length = piece.length := by
  unfold declaration? at h
  dsimp only at h
  split at h
  · cases h
  next hne =>
  split at h
  next rest hrest =>
    obtain ⟨n, hn, rfl⟩ := Option.map_eq_some_iff.mp h
    obtain ⟨gap', after, hgap', hboundary, rfl, rfl⟩ := nameAfterBlanks?_eq_some hn
    have hgap : IsGap (text.takeWhile isBlank) :=
      ⟨by simpa using hne, fun _ hc => List.mem_takeWhile_imp hc⟩
    refine ⟨_, after, ⟨_, gap', hgap, hgap', rfl⟩, hboundary, ?_, ?_⟩
    · simp only [List.append_assoc, ← dropLead?_eq_some.mp hrest,
        List.takeWhile_append_dropWhile]
    · simp [ofString, ofChars]
      omega
  · cases h

theorem isSome_declaration? {piece : Text} (hpiece : IsDeclaration name piece)
    (hboundary : isBoundary name.getLast? after.head?) :
    (declaration? name (piece ++ after)).isSome := by
  obtain ⟨gap, gap', hgap, hgap', rfl⟩ := hpiece
  have hstop : (ofString "fun" ++ (gap' ++ (name ++ after))).takeWhile isBlank = [] := rfl
  simp only [List.append_assoc, declaration?, takeWhile_append hgap.2 hstop,
    dropWhile_append hgap.2 hstop, dropLead?_eq_some.mpr rfl, List.isEmpty_iff, hgap.1,
    ↓reduceIte, Option.isSome_map]
  exact isSome_nameAfterBlanks? hgap' hboundary

theorem occurrence?_eq_some (h : occurrence? name text = some length) :
    ∃ piece after, IsDeclaration name piece ∧ isBoundary name.getLast? after.head? ∧
      text = keyword ++ (piece ++ after) ∧ length = piece.length := by
  obtain ⟨rest, hrest, h⟩ := Option.bind_eq_some_iff.mp h
  obtain ⟨piece, after, hpiece, hboundary, rfl, rfl⟩ := declaration?_eq_some h
  exact ⟨piece, after, hpiece, hboundary, dropLead?_eq_some.mp hrest, rfl⟩

theorem isSome_occurrence?_iff : (occurrence? name text).isSome ↔ Declares name text := by
  constructor
  · intro h
    obtain ⟨length, hlength⟩ := Option.isSome_iff_exists.mp h
    obtain ⟨piece, after, hpiece, hboundary, rfl, -⟩ := occurrence?_eq_some hlength
    exact ⟨piece, after, hpiece, hboundary, rfl⟩
  · rintro ⟨piece, after, hpiece, hboundary, rfl⟩
    rw [occurrence?, dropLead?_eq_some.mpr rfl, Option.bind_some]
    exact isSome_declaration? hpiece hboundary

instance : Decidable (Declares name text) :=
  decidable_of_iff (occurrence? name text).isSome isSome_occurrence?_iff

theorem keyword_append_ne_nil : keyword ++ text ≠ [] :=
  fun h => absurd (List.append_eq_nil_iff.mp h).1 (by decide)

theorem not_declares_nil : ¬ Declares name [] := by
  rintro ⟨piece, after, -, -, heq⟩
  exact keyword_append_ne_nil heq.symm

-- ---------------------------------------------------------------------------
-- Declarations word by word
-- ---------------------------------------------------------------------------

theorem isWord_eq_false_of_isBlank (h : isBlank c) : isWord c = false := by
  have halphanumeric : isAlphanumeric c = false :=
    inRanges_eq_false_of_apart (by decide +kernel) h
  rw [isWord, halphanumeric, Bool.false_or, decide_eq_false_iff_not]
  rintro rfl
  exact absurd h (by decide)

theorem isWord_keyword : ∀ c ∈ keyword, isWord c := by
  decide +kernel

theorem isWord_replacement : ∀ c ∈ replacement, isWord c := by
  decide +kernel

/-- A word that ends in neither of the keywords. -/
structure IsSimple (name : Text) : Prop where
  ne_nil : name ≠ []
  words : ∀ c ∈ name, isWord c
  not_keyword : ¬ keyword <:+ name
  not_replacement : ¬ replacement <:+ name

theorem isSimple_fun : IsSimple (ofString "fun") :=
  ⟨by decide, by decide +kernel, by decide, by decide⟩

theorem IsGap.takeWhile_isWord (h : IsGap gap) (rest : Text) :
    (gap ++ rest).takeWhile isWord = [] := by
  obtain ⟨c, gap, rfl⟩ := List.exists_cons_of_ne_nil h.1
  have hc := isWord_eq_false_of_isBlank (h.2 c List.mem_cons_self)
  simp [hc]

theorem IsSimple.takeWhile_isBlank (h : IsSimple name) (rest : Text) :
    (name ++ rest).takeWhile isBlank = [] := by
  obtain ⟨c, cs, rfl⟩ := List.exists_cons_of_ne_nil h.ne_nil
  have hc : isBlank c = false := by
    have := h.words c List.mem_cons_self
    grind [isWord_eq_false_of_isBlank]
  simp [hc]

theorem IsSimple.isBoundary_iff (h : IsSimple name) :
    isBoundary name.getLast? after.head? ↔ after.takeWhile isWord = [] := by
  have hlast := h.words _ (List.getLast_mem h.ne_nil)
  rw [isBoundary, List.getLast?_eq_some_getLast h.ne_nil, Option.any_some, hlast]
  cases after <;> simp

/-- The text starts with blanks, and the word behind them is this one. -/
def Leads (word text : Text) : Prop :=
  text.takeWhile isBlank ≠ [] ∧ (dropBlank text).takeWhile isWord = word

/-- What follows the word behind the blanks. -/
def behindWord (text : Text) : Text :=
  (dropBlank text).dropWhile isWord

theorem leads_append (hgap : IsGap gap) (hname : IsSimple name)
    (hafter : after.takeWhile isWord = []) :
    Leads name (gap ++ (name ++ after)) ∧ behindWord (gap ++ (name ++ after)) = after := by
  have hstop := hname.takeWhile_isBlank after
  refine ⟨⟨?_, ?_⟩, ?_⟩
  · rw [takeWhile_append hgap.2 hstop]
    exact hgap.1
  · rw [dropBlank, dropWhile_append hgap.2 hstop, takeWhile_append hname.words hafter]
  · rw [behindWord, dropBlank, dropWhile_append hgap.2 hstop,
      dropWhile_append hname.words hafter]

theorem Leads.exists_eq (h : Leads name text) : ∃ gap after, IsGap gap ∧
    after.takeWhile isWord = [] ∧ behindWord text = after ∧ text = gap ++ (name ++ after) := by
  refine ⟨text.takeWhile isBlank, _, ⟨h.1, fun _ hc => List.mem_takeWhile_imp hc⟩,
    takeWhile_dropWhile _, rfl, ?_⟩
  rw [← h.2, List.takeWhile_append_dropWhile, dropBlank, List.takeWhile_append_dropWhile]

theorem Declares.takeWhile_isWord (h : Declares name text) :
    text.takeWhile isWord = keyword ∧ ∃ rest, text = keyword ++ rest ∧
      rest.takeWhile isWord = [] := by
  obtain ⟨_, after, ⟨gap, gap', hgap, -, rfl⟩, -, rfl⟩ := h
  have hstop : ((gap ++ (ofString "fun" ++ (gap' ++ name))) ++ after).takeWhile isWord = [] := by
    rw [List.append_assoc]
    exact hgap.takeWhile_isWord _
  exact ⟨takeWhile_append isWord_keyword hstop, _, rfl, hstop⟩

theorem declares_iff (hname : IsSimple name) :
    Declares name text ↔ text.takeWhile isWord = keyword ∧
      Leads (ofString "fun") (text.dropWhile isWord) ∧
      Leads name (behindWord (text.dropWhile isWord)) := by
  constructor
  · intro h
    obtain ⟨hword, -⟩ := h.takeWhile_isWord
    obtain ⟨_, after, ⟨gap, gap', hgap, hgap', rfl⟩, hboundary, rfl⟩ := h
    simp only [List.append_assoc] at hword ⊢
    rw [dropWhile_append isWord_keyword (hgap.takeWhile_isWord _)]
    obtain ⟨hfun, hbehind⟩ :=
      leads_append hgap isSimple_fun (hgap'.takeWhile_isWord (name ++ after))
    rw [hbehind]
    exact ⟨hword, hfun, (leads_append hgap' hname (hname.isBoundary_iff.mp hboundary)).1⟩
  · rintro ⟨hword, hfun, hleads⟩
    obtain ⟨gap, _, hgap, -, hbehind, hrest⟩ := hfun.exists_eq
    rw [hbehind] at hleads
    obtain ⟨gap', after, hgap', hafter, -, rfl⟩ := hleads.exists_eq
    refine ⟨_, after, ⟨gap, gap', hgap, hgap', rfl⟩, hname.isBoundary_iff.mpr hafter, ?_⟩
    calc text = keyword ++ text.dropWhile isWord := by
          rw [← hword, List.takeWhile_append_dropWhile]
      _ = _ := by rw [hrest]; simp only [List.append_assoc]

end PreviewShots.VisibilityFix
