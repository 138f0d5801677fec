import PreviewShots.Proofs.KeywordSubstitution

/-!
# Keywords that give way to keywords

Whatever the names are, a fix changes a text in one way only: some occurrences of the keyword
that end a word are replaced, and all else stays as it is (`reworded_fixText`). A keyword that
was replaced may be the end of a longer word; where none is, whole words have been replaced
(`Reworded.iff_not_splitsWord`).
-/

namespace PreviewShots.VisibilityFix

open PreviewShots.Text

variable {starts : Option CodePoint → Prop} {before before' : Option CodePoint}
  {name text text' text'' rest rest' piece cs cs' : Text} {names : List Text} {c : CodePoint}

/-- Some occurrences of the keyword that end a word are replaced, and nothing else is changed.
Of what stands in front of such an occurrence the property holds; in front of the text stands
`before`. -/
inductive Reworded (starts : Option CodePoint → Prop) : Option CodePoint → Text → Text → Prop
  | nil {before : Option CodePoint} : Reworded starts before [] []
  | keep {before : Option CodePoint} {c : CodePoint} {cs cs' : Text} :
      Reworded starts (some c) cs cs' → Reworded starts before (c :: cs) (c :: cs')
  | replace {before : Option CodePoint} {rest rest' : Text} :
      starts before → rest.takeWhile isWord = [] →
      Reworded starts keyword.getLast? rest rest' →
      Reworded starts before (keyword ++ rest) (replacement ++ rest')

/-- A keyword is replaced wherever it ends a word. -/
def Anywhere : Option CodePoint → Prop :=
  fun _ => True

/-- A keyword is replaced where it is a word of its own. -/
def WordStart (before : Option CodePoint) : Prop :=
  before.any isWord = false

-- ---------------------------------------------------------------------------
-- What is read off one of the texts
-- ---------------------------------------------------------------------------

theorem head?_keyword_append : (keyword ++ text).head? = some (.char 'p') :=
  rfl

theorem head?_replacement_append : (replacement ++ text).head? = some (.char 'i') :=
  rfl

namespace Reworded

theorem refl (starts : Option CodePoint → Prop) (before : Option CodePoint) (text : Text) :
    Reworded starts before text text := by
  induction text generalizing before with
  | nil => exact .nil
  | cons c cs ih => exact .keep (ih _)

theorem anywhere (h : Reworded Anywhere before text text') (before' : Option CodePoint) :
    Reworded Anywhere before' text text' := by
  cases h with
  | nil => exact .nil
  | keep hcs => exact .keep hcs
  | replace _ hstop hrest => exact .replace trivial hstop hrest

/-- What is no keyword is kept. -/
theorem of_cons (h : Reworded starts before (c :: cs) text') (hc : c ≠ .char 'p') :
    ∃ cs', text' = c :: cs' ∧ Reworded starts (some c) cs cs' := by
  generalize htext : c :: cs = text at h
  cases h with
  | nil => cases htext
  | keep hcs =>
    cases htext
    exact ⟨_, rfl, hcs⟩
  | replace =>
    have hhead := congrArg List.head? htext
    rw [head?_keyword_append] at hhead
    exact absurd (Option.some.inj hhead) hc

theorem of_append (h : Reworded starts before (piece ++ rest) text')
    (hpiece : CodePoint.char 'p' ∉ piece) :
    ∃ rest' before', text' = piece ++ rest' ∧ Reworded starts before' rest rest' := by
  induction piece generalizing before text' with
  | nil => exact ⟨text', before, rfl, h⟩
  | cons c piece ih =>
    obtain ⟨hc, hpiece⟩ := not_or.mp (mt List.mem_cons.mpr hpiece)
    obtain ⟨cs', rfl, hcs⟩ := of_cons h (Ne.symm hc)
    obtain ⟨rest', before', rfl, hrest⟩ := ih hcs hpiece
    exact ⟨rest', before', rfl, hrest⟩

/-- What is no replacement was there before. -/
theorem of_cons_right (h : Reworded starts before text (c :: cs'))
    (hc : ¬ replacement <+: c :: cs') :
    ∃ cs, text = c :: cs ∧ Reworded starts (some c) cs cs' := by
  generalize htext : c :: cs' = text' at h
  cases h with
  | nil => cases htext
  | keep hcs =>
    cases htext
    exact ⟨_, rfl, hcs⟩
  | replace => exact absurd (htext ▸ List.prefix_append _ _) hc

theorem of_append_right (h : Reworded starts before text (piece ++ rest'))
    (hpiece : ∀ last ∈ piece.tails, last ≠ [] → ¬ replacement <+: last ++ rest') :
    ∃ rest before', text = piece ++ rest ∧ Reworded starts before' rest rest' := by
  induction piece generalizing before text with
  | nil => exact ⟨text, before, rfl, h⟩
  | cons c piece ih =>
    obtain ⟨hfirst, hpiece⟩ := List.forall_mem_cons.mp (List.tails_cons c piece ▸ hpiece)
    obtain ⟨cs, rfl, hcs⟩ := of_cons_right h (hfirst (List.cons_ne_nil c piece))
    obtain ⟨rest, before', rfl, hrest⟩ := ih hcs hpiece
    exact ⟨rest, before', rfl, hrest⟩

/-- A keyword that is there has no part in a replacement: no end of it is how a replacement
begins. -/
theorem of_keyword_right (h : Reworded starts before text (keyword ++ rest')) :
    ∃ rest before', text = keyword ++ rest ∧ Reworded starts before' rest rest' := by
  have hlast : ∀ last ∈ keyword.tails, last ≠ [] → ¬ last <+: replacement := by decide
  have hlength : keyword.length ≤ replacement.length := by decide
  refine of_append_right h fun last hm hne hbegins => hlast last hm hne ?_
  have hshort := ((List.mem_tails _ _).mp hm).length_le.trans hlength
  exact List.prefix_of_prefix_length_le (List.prefix_append last rest') hbegins hshort

theorem of_cons_cons (h : Reworded starts before (c :: cs) (c :: cs')) :
    Reworded starts (some c) cs cs' := by
  generalize htext : c :: cs = text at h
  generalize htext' : c :: cs' = text' at h
  cases h with
  | nil => cases htext
  | keep hcs =>
    cases htext
    cases htext'
    exact hcs
  | replace =>
    have hhead := congrArg List.head? htext
    have hhead' := congrArg List.head? htext'
    rw [head?_keyword_append] at hhead
    rw [head?_replacement_append] at hhead'
    exact absurd (hhead.symm.trans hhead') (by decide)

theorem of_replaced (h : Reworded starts before (keyword ++ rest) (replacement ++ rest')) :
    starts before ∧ Reworded starts keyword.getLast? rest rest' := by
  generalize htext : keyword ++ rest = text at h
  generalize htext' : replacement ++ rest' = text' at h
  cases h with
  | nil => cases htext
  | keep =>
    have hhead := congrArg List.head? htext
    have hhead' := congrArg List.head? htext'
    rw [head?_keyword_append] at hhead
    rw [head?_replacement_append] at hhead'
    exact absurd (hhead.trans hhead'.symm) (by decide)
  | replace hstarts _ hrest =>
    obtain rfl := List.append_cancel_left htext
    obtain rfl := List.append_cancel_left htext'
    exact ⟨hstarts, hrest⟩

theorem takeWhile_isWord_eq_nil (h : Reworded starts before text text')
    (hstop : text'.takeWhile isWord = []) : text.takeWhile isWord = [] := by
  cases h with
  | nil => rfl
  | @keep _ c _ _ _ =>
    by_cases hc : isWord c
    · simp [hc] at hstop
    · simp [hc]
  | @replace _ rest rest' =>
    have hi : isWord (.char 'i') := isWord_replacement _ List.mem_cons_self
    have hword : (replacement ++ rest').takeWhile isWord ≠ [] := by
      simp [replacement, ofString, ofChars, hi]
    exact absurd hstop hword

/-- What stands in the new text was there, or is part of a replacement. -/
theorem mem_or_mem (h : Reworded starts before text text') (hc : c ∈ text') :
    c ∈ text ∨ c ∈ replacement := by
  induction h with
  | nil => cases hc
  | keep _ ih =>
    rcases List.mem_cons.mp hc with rfl | hc
    · exact .inl List.mem_cons_self
    · exact (ih hc).imp_left (List.mem_cons_of_mem _)
  | replace _ _ _ ih =>
    rcases List.mem_append.mp hc with hc | hc
    · exact .inr hc
    · exact (ih hc).imp_left (List.mem_append_right _)

/-- What is no part of a keyword stays. -/
theorem mem (h : Reworded starts before text text') (hc : c ∈ text) (hnot : c ∉ keyword) :
    c ∈ text' := by
  induction h with
  | nil => cases hc
  | keep _ ih =>
    rcases List.mem_cons.mp hc with rfl | hc
    · exact List.mem_cons_self
    · exact List.mem_cons_of_mem _ (ih hc)
  | replace _ _ _ ih =>
    rcases List.mem_append.mp hc with hc | hc
    · exact absurd hc hnot
    · exact List.mem_append_right _ (ih hc)

theorem keep_append (piece : Text) (h : Reworded Anywhere before rest rest') :
    Reworded Anywhere before' (piece ++ rest) (piece ++ rest') := by
  induction piece generalizing before' with
  | nil => exact h.anywhere _
  | cons c piece ih => exact .keep ih

/-- Two passes are one. -/
theorem trans (h : Reworded Anywhere before text text')
    (h' : Reworded Anywhere before' text' text'') : Reworded Anywhere before text text'' := by
  induction hlength : text.length using Nat.strong_induction_on
    generalizing before before' text text' text'' with
  | _ n ih =>
  subst hlength
  have hkeyword : 0 < keyword.length := by decide
  -- by the length: what the first pass keeps may be a keyword that the second replaces
  cases h with
  | nil =>
    cases h'
    exact .nil
  | @keep _ c cs cs' hcs =>
    have hkept : Reworded Anywhere before (c :: cs) (c :: cs') := .keep hcs
    generalize htext : c :: cs' = text' at h' hkept
    cases h' with
    | nil => cases htext
    | keep hcs' =>
      cases htext
      exact .keep (ih _ (by simp) hcs hcs' rfl)
    | replace _ hstop hrest =>
      obtain ⟨rest, _, heq, hfirst⟩ := of_keyword_right hkept
      rw [heq] at ih ⊢
      refine .replace trivial (hfirst.takeWhile_isWord_eq_nil hstop) ?_
      exact ih _ (by simp; omega) (hfirst.anywhere _) hrest rfl
  | replace _ hstop hrest =>
    obtain ⟨rest'', _, rfl, hrest'⟩ := of_append h' (by decide)
    exact .replace trivial hstop (ih _ (by simp; omega) hrest hrest' rfl)

end Reworded

-- ---------------------------------------------------------------------------
-- What a fix does to a text
-- ---------------------------------------------------------------------------

theorem IsDeclaration.takeWhile_isWord (h : IsDeclaration name piece) (rest : Text) :
    (piece ++ rest).takeWhile isWord = [] := by
  obtain ⟨gap, gap', hgap, -, rfl⟩ := h
  rw [List.append_assoc]
  exact hgap.takeWhile_isWord _

theorem reworded_substitute (name text : Text) (before : Option CodePoint) :
    Reworded Anywhere before text (substitute name 0 0 text).1 := by
  induction hlength : text.length using Nat.strong_induction_on generalizing before text with
  | _ n ih =>
  subst hlength
  have hkeyword : 0 < keyword.length := by decide
  by_cases h : Declares name text
  · obtain ⟨piece, after, hpiece, -, rfl, heq⟩ := substitute_of_declares h
    rw [heq]
    have hafter : Reworded Anywhere none after (substitute name 0 0 after).1 :=
      ih _ (by simp; omega) after none rfl
    exact .replace trivial (hpiece.takeWhile_isWord after) (.keep_append piece hafter)
  · cases text with
    | nil => exact .nil
    | cons c cs =>
      rw [substitute_cons_of_not h]
      exact .keep (ih _ (by simp) cs _ rfl)

/-- A fix replaces keywords and changes nothing else. -/
theorem reworded_fixText (names : List Text) (text : Text) (before : Option CodePoint) :
    Reworded Anywhere before text (fixText names text).1 := by
  induction names generalizing text with
  | nil => exact .refl _ _ _
  | cons name names ih =>
    rw [fixText_cons]
    exact (reworded_substitute name text before).trans (ih _)

theorem isEncodable_fixText (names : List Text) (h : text.isEncodable = true) :
    (fixText names text).1.isEncodable = true := by
  have hreplacement : ∀ c ∈ replacement, c.char?.isSome = true := by decide
  simp only [isEncodable, List.all_eq_true] at h ⊢
  intro c hc
  exact ((reworded_fixText names text none).mem_or_mem hc).elim (h c) (hreplacement c)

theorem return_not_mem_fixText (names : List Text) (h : CodePoint.char '\r' ∉ text) :
    CodePoint.char '\r' ∉ (fixText names text).1 := by
  intro hc
  rcases (reworded_fixText names text none).mem_or_mem hc with hc | hc
  · exact h hc
  · exact absurd hc (by decide)

-- ---------------------------------------------------------------------------
-- Whole words
-- ---------------------------------------------------------------------------

/-- From the front both texts go on alike, up to a keyword that was replaced though it is the
end of a longer word. -/
inductive SplitsWord : Text → Text → Prop
  | here {c : CodePoint} {rest rest' : Text} :
      isWord c → SplitsWord (c :: (keyword ++ rest)) (c :: (replacement ++ rest'))
  | keep {c : CodePoint} {cs cs' : Text} :
      SplitsWord cs cs' → SplitsWord (c :: cs) (c :: cs')
  | replace {rest rest' : Text} :
      SplitsWord rest rest' → SplitsWord (keyword ++ rest) (replacement ++ rest')

namespace Reworded

theorem not_splitsWord (h : Reworded WordStart before text text') : ¬ SplitsWord text text' := by
  intro hsplit
  induction hsplit generalizing before with
  | here hc =>
    have hstart := h.of_cons_cons.of_replaced.1
    simp [WordStart, hc] at hstart
  | keep _ ih => exact ih h.of_cons_cons
  | replace _ ih => exact ih h.of_replaced.2

theorem of_not_splitsWord (h : Reworded Anywhere before text text')
    (hfirst : ∀ rest rest', text = keyword ++ rest → text' = replacement ++ rest' →
      WordStart before)
    (hnot : ¬ SplitsWord text text') : Reworded WordStart before text text' := by
  induction h with
  | nil => exact .nil
  | @keep before c cs cs' hcs ih =>
    refine .keep (ih (fun rest rest' he he' => ?_) fun hsplit => hnot hsplit.keep)
    subst he he'
    by_contra hstart
    exact hnot (.here (by simpa [WordStart] using hstart))
  | @replace before rest rest' _ hstop hrest ih =>
    refine .replace (hfirst _ _ rfl rfl) hstop (ih (fun more _ he _ => ?_) fun hsplit =>
      hnot hsplit.replace)
    -- the word has ended, so that no keyword follows
    have hp : isWord (.char 'p') := isWord_keyword _ List.mem_cons_self
    rw [he] at hstop
    simp [keyword, ofString, ofChars, hp] at hstop

/-- Whole words have been replaced if and only if no longer word was cut. -/
theorem iff_not_splitsWord (h : Reworded Anywhere none text text') :
    Reworded WordStart none text text' ↔ ¬ SplitsWord text text' :=
  ⟨not_splitsWord, of_not_splitsWord h fun _ _ _ _ => rfl⟩

end Reworded

end PreviewShots.VisibilityFix
