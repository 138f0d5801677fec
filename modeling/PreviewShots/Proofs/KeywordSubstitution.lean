import Mathlib.Data.List.Dedup
import Mathlib.Data.List.Infix
import PreviewShots.Proofs.PrivateDeclaration

/-!
# The visibility fix as one substitution

The names are taken one after the other, each on the text that the one before has left. It
comes to the same as to replace the keyword of all declarations at once: what is replaced ends
a word, and a declaration is told from the words behind its keyword (`fixText_simultaneous`).
-/

namespace PreviewShots.VisibilityFix

open PreviewShots.Text

variable {name other text text' rest rest' after word gap : Text} {names more : List Text}
  {c : CodePoint} {cs cs' : Text}

-- ---------------------------------------------------------------------------
-- All declarations at once
-- ---------------------------------------------------------------------------

/-- The text starts with a private declaration of one of the functions. -/
def DeclaresAny (names : List Text) (text : Text) : Prop :=
  ∃ name ∈ names, Declares name text

/-- The keyword is replaced where a function of the list is declared, and only there. Whether
it is, is told from the text as it was. -/
inductive Rewritten (names : List Text) : Text → Text → Prop
  | nil : Rewritten names [] []
  | keep {c : CodePoint} {cs cs' : Text} :
      ¬ DeclaresAny names (c :: cs) → Rewritten names cs cs' →
      Rewritten names (c :: cs) (c :: cs')
  | replace {rest rest' : Text} :
      DeclaresAny names (keyword ++ rest) → Rewritten names rest rest' →
      Rewritten names (keyword ++ rest) (replacement ++ rest')

theorem DeclaresAny.takeWhile_isWord (h : DeclaresAny names text) :
    text.takeWhile isWord = keyword := by
  obtain ⟨name, -, hdeclares⟩ := h
  exact hdeclares.takeWhile_isWord.1

theorem DeclaresAny.exists_eq (h : DeclaresAny names text) :
    ∃ rest, text = keyword ++ rest ∧ rest.takeWhile isWord = [] := by
  obtain ⟨name, -, hdeclares⟩ := h
  exact hdeclares.takeWhile_isWord.2

theorem DeclaresAny.stops (h : DeclaresAny names (keyword ++ rest)) :
    rest.takeWhile isWord = [] := by
  obtain ⟨_, heq, hrest⟩ := h.exists_eq
  exact List.append_cancel_left heq ▸ hrest

theorem DeclaresAny.mono (h : DeclaresAny names text) (hsub : names ⊆ more) :
    DeclaresAny more text := by
  obtain ⟨name, hm, hdeclares⟩ := h
  exact ⟨name, hsub hm, hdeclares⟩

theorem not_keyword_replacement : ¬ keyword <:+ replacement := by
  decide

theorem takeWhile_ne_keyword (hword : ∀ c ∈ word, isWord c) (hrest : rest.takeWhile isWord = [])
    (hnot : ¬ keyword <:+ word) : (word ++ rest).takeWhile isWord ≠ keyword := by
  rw [takeWhile_append hword hrest]
  rintro rfl
  exact hnot List.suffix_rfl

namespace Rewritten

theorem dropBlank (h : Rewritten names text text') :
    text'.takeWhile isBlank = text.takeWhile isBlank ∧
      Rewritten names (dropBlank text) (dropBlank text') := by
  induction h with
  | nil => exact ⟨rfl, .nil⟩
  | @keep c cs cs' hnot hcs ih =>
    unfold Text.dropBlank at ih ⊢
    by_cases hc : isBlank c
    · simpa [hc] using ih
    · simpa [hc] using hcs.keep hnot
  | replace hany hrest => exact ⟨rfl, .replace hany hrest⟩

theorem stops (h : Rewritten names text text') (hstop : text.takeWhile isWord = []) :
    text'.takeWhile isWord = [] := by
  cases h with
  | nil => rfl
  | @keep c _ _ _ _ =>
    by_cases hc : isWord c
    · simp [hc] at hstop
    · simp [hc]
  | replace hany _ =>
    rw [takeWhile_append isWord_keyword hany.stops, ← List.append_nil keyword] at hstop
    exact absurd hstop keyword_append_ne_nil

/-- A word changes in its end only. -/
theorem dropWord (h : Rewritten names text text') :
    (text'.takeWhile isWord = text.takeWhile isWord ∨
      ∃ lead, text.takeWhile isWord = lead ++ keyword ∧
        text'.takeWhile isWord = lead ++ replacement) ∧
      Rewritten names (text.dropWhile isWord) (text'.dropWhile isWord) := by
  induction h with
  | nil => exact ⟨.inl rfl, .nil⟩
  | @keep c cs cs' hnot hcs ih =>
    by_cases hc : isWord c
    · simp only [hc, List.takeWhile_cons_of_pos, List.dropWhile_cons_of_pos]
      obtain ⟨heq | ⟨lead, hword, hword'⟩, hdrop⟩ := ih
      · exact ⟨.inl (by rw [heq]), hdrop⟩
      · exact ⟨.inr ⟨c :: lead, by rw [hword]; rfl, by rw [hword']; rfl⟩, hdrop⟩
    · simpa [hc] using hcs.keep hnot
  | replace hany hrest _ =>
    have hstop := hany.stops
    have hstop' := hrest.stops hstop
    rw [takeWhile_append isWord_keyword hstop, dropWhile_append isWord_keyword hstop,
      takeWhile_append isWord_replacement hstop', dropWhile_append isWord_replacement hstop']
    exact ⟨.inr ⟨[], rfl, rfl⟩, hrest⟩

theorem takeWhile_isWord_iff (h : Rewritten names text text') (hname : IsSimple name) :
    text'.takeWhile isWord = name ↔ text.takeWhile isWord = name := by
  obtain ⟨heq | ⟨lead, hword, hword'⟩, -⟩ := h.dropWord
  · rw [heq]
  · rw [hword, hword']
    constructor
    · rintro rfl
      exact absurd (List.suffix_append _ _) hname.not_replacement
    · rintro rfl
      exact absurd (List.suffix_append _ _) hname.not_keyword

theorem leads_iff (h : Rewritten names text text') (hname : IsSimple name) :
    Leads name text' ↔ Leads name text := by
  obtain ⟨hblank, hdrop⟩ := h.dropBlank
  rw [Leads, Leads, hblank, hdrop.takeWhile_isWord_iff hname]

theorem behindWord (h : Rewritten names text text') :
    Rewritten names (behindWord text) (behindWord text') :=
  h.dropBlank.2.dropWord.2

/-- What is kept of a text starts with the same declarations as before. -/
theorem declares_cons_iff (h : Rewritten names cs cs') (hname : IsSimple name) :
    Declares name (c :: cs') ↔ Declares name (c :: cs) := by
  rw [declares_iff hname, declares_iff hname]
  by_cases hc : isWord c
  · have hrest := h.dropWord.2
    simp only [hc, List.takeWhile_cons_of_pos, List.dropWhile_cons_of_pos]
    rw [hrest.leads_iff isSimple_fun, hrest.behindWord.leads_iff hname]
    refine and_congr_left fun _ => ?_
    obtain ⟨heq | ⟨lead, hword, hword'⟩, -⟩ := h.dropWord
    · rw [heq]
    · -- a word that ends in a keyword and is longer is none
      rw [hword, hword']
      constructor <;> intro heq
      all_goals
        have hlength := congrArg List.length heq
        simp [keyword, replacement, ofString, ofChars] at hlength
  · simp [hc, keyword, ofString, ofChars]

theorem declaresAny_cons_iff (h : Rewritten names cs cs')
    (hmore : ∀ name ∈ more, IsSimple name) :
    DeclaresAny more (c :: cs') ↔ DeclaresAny more (c :: cs) :=
  exists_congr fun _ => and_congr_right fun hm => h.declares_cons_iff (hmore _ hm)

theorem of_not_declaresAny (h : Rewritten names (c :: cs) text')
    (hnot : ¬ DeclaresAny names (c :: cs)) : ∃ cs', text' = c :: cs' ∧ Rewritten names cs cs' := by
  generalize htext : c :: cs = text at h hnot
  cases h with
  | nil => cases htext
  | keep _ hcs =>
    cases htext
    exact ⟨_, rfl, hcs⟩
  | replace hany _ => exact absurd hany hnot

theorem of_declaresAny (h : Rewritten names (keyword ++ rest) text')
    (hany : DeclaresAny names (keyword ++ rest)) :
    ∃ rest', text' = replacement ++ rest' ∧ Rewritten names rest rest' := by
  generalize htext : keyword ++ rest = text at h hany
  cases h with
  | nil => exact absurd htext keyword_append_ne_nil
  | keep hnot _ => exact absurd hany hnot
  | replace _ hrest =>
    obtain rfl := List.append_cancel_left htext
    exact ⟨_, rfl, hrest⟩

theorem unique {fixed fixed' : Text} (h : Rewritten names text fixed)
    (h' : Rewritten names text fixed') : fixed = fixed' := by
  induction h generalizing fixed' with
  | nil =>
    cases h'
    rfl
  | keep hnot _ ih =>
    obtain ⟨cs', rfl, hcs⟩ := h'.of_not_declaresAny hnot
    rw [ih hcs]
  | replace hany _ ih =>
    obtain ⟨rest', rfl, hrest⟩ := h'.of_declaresAny hany
    rw [ih hrest]

theorem of_replacement (h : Rewritten names (replacement ++ rest) text')
    (hrest : rest.takeWhile isWord = []) :
    ∃ rest', text' = replacement ++ rest' ∧ Rewritten names rest rest' := by
  have hdrop := h.dropWord
  rw [takeWhile_append isWord_replacement hrest, dropWhile_append isWord_replacement hrest] at hdrop
  obtain ⟨heq | ⟨lead, hlead, -⟩, hbehind⟩ := hdrop
  · exact ⟨_, by rw [← heq, List.takeWhile_append_dropWhile], hbehind⟩
  · exact absurd (hlead ▸ List.suffix_append lead keyword) not_keyword_replacement

theorem of_keyword (h : Rewritten names (keyword ++ rest) (keyword ++ rest'))
    (hrest : rest.takeWhile isWord = []) (hrest' : rest'.takeWhile isWord = []) :
    Rewritten names rest rest' := by
  have hdrop := h.dropWord.2
  rwa [dropWhile_append isWord_keyword hrest, dropWhile_append isWord_keyword hrest'] at hdrop

/-- Two passes are one for the names of both. -/
theorem trans {text'' : Text} (h : Rewritten names text text') (h' : Rewritten more text' text'')
    (hmore : ∀ name ∈ more, IsSimple name) : Rewritten (names ++ more) text text'' := by
  induction hlength : text.length using Nat.strong_induction_on generalizing text text' text'' with
  | _ n ih =>
  subst hlength
  have hkeyword : 0 < keyword.length := by decide
  -- by the length: what the first pass keeps may be replaced by the second, and then it is the
  -- rest behind the keyword that is left of both
  cases h with
  | nil =>
    cases h'
    exact .nil
  | @keep c cs cs' hnot hcs =>
    have hsame := hcs.declaresAny_cons_iff (c := c) hmore
    have hkept := hcs.keep hnot
    by_cases hany : DeclaresAny more (c :: cs)
    · have hany' := hsame.mpr hany
      obtain ⟨rest, heq, hstop⟩ := hany.exists_eq
      obtain ⟨rest', heq', hstop'⟩ := hany'.exists_eq
      rw [heq] at hkept hany ih ⊢
      rw [heq'] at hkept hany' h'
      obtain ⟨rest'', rfl, hrest⟩ := h'.of_declaresAny hany'
      refine .replace (hany.mono (List.subset_append_right _ _)) ?_
      exact ih _ (by simp; omega) (hkept.of_keyword hstop hstop') hrest rfl
    · obtain ⟨cs'', rfl, hcs'⟩ := h'.of_not_declaresAny (hsame.not.mpr hany)
      refine .keep ?_ (ih _ (by simp) hcs hcs' rfl)
      rintro ⟨name, hm, hdeclares⟩
      obtain hm | hm := List.mem_append.mp hm
      · exact hnot ⟨name, hm, hdeclares⟩
      · exact hany ⟨name, hm, hdeclares⟩
  | replace hany hrest =>
    obtain ⟨rest'', rfl, hrest'⟩ := h'.of_replacement (hrest.stops hany.stops)
    refine .replace (hany.mono (List.subset_append_left _ _)) ?_
    exact ih _ (by simp; omega) hrest hrest' rfl

end Rewritten

-- ---------------------------------------------------------------------------
-- Occurrences
-- ---------------------------------------------------------------------------

/-- A private declaration of the function stands in the text. -/
def Occurs (name text : Text) : Prop :=
  ∃ after, after <:+ text ∧ Declares name after

instance : Decidable (Occurs name text) :=
  decidable_of_iff (∃ after ∈ text.tails, Declares name after) <| by
    simp only [Occurs, List.mem_tails]

theorem not_occurs_nil : ¬ Occurs name [] := by
  rintro ⟨after, hsuffix, hdeclares⟩
  obtain rfl := List.suffix_nil.mp hsuffix
  exact not_declares_nil hdeclares

theorem occurs_cons : Occurs name (c :: cs) ↔ Declares name (c :: cs) ∨ Occurs name cs := by
  simp only [Occurs, List.suffix_cons_iff, or_and_right, exists_or, exists_eq_left]

/-- A word without the keyword at its end holds none of a declaration. -/
theorem occurs_word_append (hword : ∀ c ∈ word, isWord c) (hrest : rest.takeWhile isWord = [])
    (hnot : ¬ keyword <:+ word) : Occurs name (word ++ rest) ↔ Occurs name rest := by
  induction word with
  | nil => rfl
  | cons c word ih =>
    have hnone : ¬ Declares name (c :: word ++ rest) := fun hdeclares =>
      takeWhile_ne_keyword hword hrest hnot hdeclares.takeWhile_isWord.1
    rw [List.cons_append, occurs_cons, ← List.cons_append, or_iff_right hnone]
    refine ih (fun d hd => hword d (List.mem_cons_of_mem _ hd)) fun hsuffix => hnot ?_
    exact hsuffix.trans (List.suffix_cons c word)

theorem keyword_eq : keyword = .char 'p' :: ofString "rivate" :=
  rfl

theorem occurs_keyword_append (hrest : rest.takeWhile isWord = []) :
    Occurs name (keyword ++ rest) ↔ Declares name (keyword ++ rest) ∨ Occurs name rest := by
  have htail : ∀ c ∈ ofString "rivate", isWord c := fun c hc =>
    isWord_keyword c (List.mem_cons_of_mem _ hc)
  rw [keyword_eq, List.cons_append, occurs_cons, occurs_word_append htail hrest (by decide)]

theorem occurs_replacement_append (hrest : rest.takeWhile isWord = []) :
    Occurs name (replacement ++ rest) ↔ Occurs name rest :=
  occurs_word_append isWord_replacement hrest not_keyword_replacement

/-- One declaration has one name. -/
theorem Declares.unique (h : Declares name text) (h' : Declares other text)
    (hname : IsSimple name) (hother : IsSimple other) : name = other := by
  obtain ⟨-, -, hleads⟩ := (declares_iff hname).mp h
  obtain ⟨-, -, hleads'⟩ := (declares_iff hother).mp h'
  rw [← hleads.2, ← hleads'.2]

theorem Rewritten.occurs_iff (h : Rewritten names text text')
    (hnames : ∀ name ∈ names, IsSimple name) (hname : IsSimple name) :
    Occurs name text' ↔ Occurs name text ∧ name ∉ names := by
  induction h with
  | nil => simp [not_occurs_nil]
  | keep hnot hcs ih =>
    rw [occurs_cons, occurs_cons, hcs.declares_cons_iff hname, ih, or_and_right]
    refine or_congr_left ⟨fun hdeclares => ⟨hdeclares, fun hm => ?_⟩, And.left⟩
    exact hnot ⟨name, hm, hdeclares⟩
  | replace hany hrest ih =>
    rw [occurs_replacement_append (hrest.stops hany.stops), occurs_keyword_append hany.stops, ih,
      or_and_right]
    refine (or_iff_right ?_).symm
    rintro ⟨hdeclares, hout⟩
    obtain ⟨other, hm, hother⟩ := hany
    exact hout (hdeclares.unique hother hname (hnames other hm) ▸ hm)

-- ---------------------------------------------------------------------------
-- One name
-- ---------------------------------------------------------------------------

theorem substitute_drop (drop copy : Nat) (text : Text) :
    substitute name drop copy text = substitute name 0 copy (text.drop drop) := by
  induction drop generalizing text with
  | zero => rfl
  | succ drop ih =>
    cases text with
    | nil => rfl
    | cons c cs => exact ih cs

theorem substitute_copy (piece : Text) : substitute name 0 piece.length (piece ++ text) =
    (piece ++ (substitute name 0 0 text).1, (substitute name 0 0 text).2) := by
  induction piece with
  | nil => rfl
  | cons c piece ih => simp only [List.length_cons, List.cons_append, substitute, ih]

theorem substitute_cons_of_not (h : ¬ Declares name (c :: cs)) :
    substitute name 0 0 (c :: cs) =
      (c :: (substitute name 0 0 cs).1, (substitute name 0 0 cs).2) := by
  have hnone : occurrence? name (c :: cs) = none := by
    rwa [← Option.not_isSome_iff_eq_none, isSome_occurrence?_iff]
  simp only [substitute, hnone]

/-- A declaration is taken whole, and the search goes on behind it. -/
theorem substitute_of_declares (h : Declares name text) :
    ∃ piece after, IsDeclaration name piece ∧ isBoundary name.getLast? after.head? ∧
      text = keyword ++ (piece ++ after) ∧ substitute name 0 0 text =
        (replacement ++ (piece ++ (substitute name 0 0 after).1),
          (substitute name 0 0 after).2 + 1) := by
  obtain ⟨length, hlength⟩ := Option.isSome_iff_exists.mp (isSome_occurrence?_iff.mpr h)
  obtain ⟨piece, after, hpiece, hboundary, rfl, rfl⟩ := occurrence?_eq_some hlength
  refine ⟨piece, after, hpiece, hboundary, rfl, ?_⟩
  have hbehind : (ofString "rivate" ++ (piece ++ after)).drop (keyword.length - 1) =
      piece ++ after := rfl
  rw [keyword_eq, List.cons_append] at hlength ⊢
  simp only [substitute, hlength]
  rw [substitute_drop, hbehind, substitute_copy]

theorem Rewritten.keep_gap (h : Rewritten names rest rest') (hgap : ∀ c ∈ gap, isBlank c) :
    Rewritten names (gap ++ rest) (gap ++ rest') := by
  induction gap with
  | nil => exact h
  | cons c gap ih =>
    obtain ⟨hc, hgap⟩ := List.forall_mem_cons.mp hgap
    refine .keep (fun hany => ?_) (ih hgap)
    have heq := hany.takeWhile_isWord
    rw [List.takeWhile_cons_of_neg (by simp [isWord_eq_false_of_isBlank hc])] at heq
    exact absurd heq (by decide)

theorem Rewritten.keep_word (h : Rewritten names rest rest') (hword : ∀ c ∈ word, isWord c)
    (hrest : rest.takeWhile isWord = []) (hnot : ¬ keyword <:+ word) :
    Rewritten names (word ++ rest) (word ++ rest') := by
  induction word with
  | nil => exact h
  | cons c word ih =>
    refine .keep (fun hany => takeWhile_ne_keyword hword hrest hnot hany.takeWhile_isWord) ?_
    refine ih (fun d hd => hword d (List.mem_cons_of_mem _ hd)) fun hsuffix => hnot ?_
    exact hsuffix.trans (List.suffix_cons c word)

theorem Rewritten.keep_declaration {piece : Text} (h : Rewritten names rest rest')
    (hpiece : IsDeclaration name piece) (hname : IsSimple name)
    (hrest : rest.takeWhile isWord = []) :
    Rewritten names (piece ++ rest) (piece ++ rest') := by
  obtain ⟨gap, gap', hgap, hgap', rfl⟩ := hpiece
  simp only [List.append_assoc]
  refine keep_gap ?_ hgap.2
  refine keep_word ?_ isSimple_fun.words (hgap'.takeWhile_isWord _) isSimple_fun.not_keyword
  exact (h.keep_word hname.words hrest hname.not_keyword).keep_gap hgap'.2

theorem rewritten_substitute (hname : IsSimple name) (text : Text) :
    Rewritten [name] text (substitute name 0 0 text).1 := by
  induction hlength : text.length using Nat.strong_induction_on generalizing text with
  | _ n ih =>
  subst hlength
  by_cases h : Declares name text
  · obtain ⟨piece, after, hpiece, hboundary, rfl, heq⟩ := substitute_of_declares h
    rw [heq]
    refine .replace ⟨name, List.mem_cons_self, h⟩ ?_
    refine .keep_declaration ?_ hpiece hname (hname.isBoundary_iff.mp hboundary)
    refine ih _ ?_ after rfl
    simp [keyword, ofString, ofChars]
    omega
  · cases text with
    | nil => exact .nil
    | cons c cs =>
      rw [substitute_cons_of_not h]
      refine .keep ?_ (ih _ (by simp) cs rfl)
      rintro ⟨other, hm, hother⟩
      obtain rfl := List.mem_singleton.mp hm
      exact h hother

theorem substitute_count_eq_zero : (substitute name 0 0 text).2 = 0 ↔ ¬ Occurs name text := by
  induction text with
  | nil => exact iff_of_true rfl not_occurs_nil
  | cons c cs ih =>
    by_cases h : Declares name (c :: cs)
    · obtain ⟨_, _, -, -, -, heq⟩ := substitute_of_declares h
      rw [heq]
      exact iff_of_false (Nat.succ_ne_zero _) (not_not.mpr (occurs_cons.mpr (.inl h)))
    · rw [substitute_cons_of_not h, occurs_cons, or_iff_right h]
      exact ih

-- ---------------------------------------------------------------------------
-- All names
-- ---------------------------------------------------------------------------

theorem rewritten_self (h : ∀ name ∈ names, ¬ Occurs name text) : Rewritten names text text := by
  induction text with
  | nil => exact .nil
  | cons c cs ih =>
    refine .keep ?_ (ih fun name hm hoccurs => h name hm (occurs_cons.mpr (.inr hoccurs)))
    rintro ⟨name, hm, hdeclares⟩
    exact h name hm (occurs_cons.mpr (.inl hdeclares))

theorem Rewritten.mono_of_mem_iff (h : Rewritten names text text')
    (hsame : ∀ name, name ∈ more ↔ name ∈ names) : Rewritten more text text' := by
  induction h with
  | nil => exact .nil
  | keep hnot _ ih => exact .keep (fun hany => hnot (hany.mono fun _ => (hsame _).mp)) ih
  | replace hany _ ih => exact .replace (hany.mono fun _ => (hsame _).mpr) ih

theorem fixText_cons : fixText (name :: names) text =
    ((fixText names (substitute name 0 0 text).1).1,
      (fixText names (substitute name 0 0 text).1).2 + if Occurs name text then 1 else 0) := by
  by_cases h : Occurs name text
  · simp [fixText, substitute_count_eq_zero, h]
  · simp [fixText, substitute_count_eq_zero, h]

theorem rewritten_fixText (hnames : ∀ name ∈ names, IsSimple name) (text : Text) :
    Rewritten names text (fixText names text).1 := by
  induction names generalizing text with
  | nil => exact rewritten_self (by simp)
  | cons name names ih =>
    obtain ⟨hname, hnames⟩ := List.forall_mem_cons.mp hnames
    rw [fixText_cons]
    exact (rewritten_substitute hname text).trans (ih hnames _) hnames

theorem dedup_cons_perm (name : Text) (names : List Text) :
    (name :: names).dedup.Perm (name :: names.dedup.filter (· ≠ name)) := by
  refine (List.perm_ext_iff_of_nodup (List.nodup_dedup _) ?_).mpr fun other => ?_
  · exact List.nodup_cons.mpr ⟨by simp, (List.nodup_dedup names).filter _⟩
  · by_cases h : other = name <;> simp [h]

theorem count_fixText (hnames : ∀ name ∈ names, IsSimple name) (text : Text) :
    (fixText names text).2 = names.dedup.countP (Occurs · text) := by
  induction names generalizing text with
  | nil => rfl
  | cons name names ih =>
    obtain ⟨hname, hnames⟩ := List.forall_mem_cons.mp hnames
    have hpass := rewritten_substitute hname text
    have hlater : names.dedup.countP (Occurs · (substitute name 0 0 text).1) =
        (names.dedup.filter (· ≠ name)).countP (Occurs · text) := by
      rw [List.countP_filter]
      refine List.countP_congr fun other hm => ?_
      have hother := hnames other (List.mem_dedup.mp hm)
      simpa using hpass.occurs_iff (by simpa using hname) hother
    rw [fixText_cons, (dedup_cons_perm name names).countP_eq, List.countP_cons, ih hnames, hlater]
    simp only [decide_eq_true_eq]

/-- The names may be taken in any order: at the end the keyword is replaced at the declarations
of the text as it was, and nowhere else. The count is that of the different names declared there,
and nothing is left to be done. -/
theorem fixText_simultaneous (hnames : ∀ name ∈ names, IsSimple name) (text : Text) :
    (∀ fixed, Rewritten names text fixed ↔ fixed = (fixText names text).1) ∧
      (fixText names text).2 = names.dedup.countP (Occurs · text) ∧
      (∀ names', (∀ name, name ∈ names' ↔ name ∈ names) →
        fixText names' text = fixText names text) ∧
      fixText names (fixText names text).1 = ((fixText names text).1, 0) := by
  have hfixed := rewritten_fixText hnames text
  refine ⟨fun fixed => ⟨fun h => h.unique hfixed, fun h => h ▸ hfixed⟩, count_fixText hnames text,
    fun names' hsame => ?_, ?_⟩
  · have hnames' : ∀ name ∈ names', IsSimple name := fun name hm => hnames name ((hsame name).mp hm)
    have hfixed' := (rewritten_fixText hnames' text).mono_of_mem_iff fun name => (hsame name).symm
    have hperm : names'.dedup.Perm names.dedup := by
      refine (List.perm_ext_iff_of_nodup (List.nodup_dedup _) (List.nodup_dedup _)).mpr ?_
      simpa only [List.mem_dedup] using hsame
    refine Prod.ext (hfixed'.unique hfixed) ?_
    rw [count_fixText hnames, count_fixText hnames', hperm.countP_eq]
  · have hnone : ∀ name ∈ names, ¬ Occurs name (fixText names text).1 := fun name hm hoccurs =>
      ((hfixed.occurs_iff hnames (hnames name hm)).mp hoccurs).2 hm
    refine Prod.ext ((rewritten_fixText hnames _).unique (rewritten_self hnone)) ?_
    rw [count_fixText hnames, List.countP_eq_zero]
    simpa using hnone

/-- Of two names the one starts with the other. -/
theorem hidden_fixed :
    let names : List Text := ["hidden", "hiddenCard"]
    let text : Text := "private fun hiddenCard() {} private  fun hidden() {}"
    (∀ name ∈ names, IsSimple name) ∧
      Rewritten names text "internal fun hiddenCard() {} internal  fun hidden() {}" ∧
      (fixText names text).2 = 2 ∧ fixText names.reverse text = fixText names text := by
  intro names text
  have hnames : ∀ name ∈ names, IsSimple name := by
    refine List.forall_mem_cons.mpr ⟨⟨by decide, by decide +kernel, by decide, by decide⟩, ?_⟩
    refine List.forall_mem_singleton.mpr ⟨by decide, by decide +kernel, by decide, by decide⟩
  obtain ⟨hrewritten, hcount, hsame, -⟩ := fixText_simultaneous hnames text
  refine ⟨hnames, (hrewritten _).mpr ?_, hcount.trans ?_, hsame _ fun _ => List.mem_reverse⟩
  · decide +kernel
  · decide +kernel

end PreviewShots.VisibilityFix
