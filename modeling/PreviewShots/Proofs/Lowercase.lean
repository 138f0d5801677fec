import PreviewShots.Proofs.ReportText
import PreviewShots.Text.Lowercase

/-!
# Lower case of a part

What stands behind a letter can tell which lower case it has, but not across a comma or a blank.
So where a text is cut at these, the lower case of a part is found in the lower case of the whole
(`Text.lower_infix_of_mem_splitOn`, `Text.lower_trim_isInfix`).
-/

namespace PreviewShots

namespace Text

variable {text : Text}

/-- Ranges of characters without a case, which are the lower case of no other character. -/
structure IsCaseless (ranges : List Range) : Prop where
  apart : ∀ row ∈ lowercaseShifts, ∀ range ∈ ranges,
    (range.2 < row.1 ∨ row.2.1 < range.1) ∧
      ((range.2 : Int) < row.1 + row.2.2.2 ∨ row.2.1 + row.2.2.2 < (range.1 : Int))
  others : ∀ c ∈ ("\u0000\u0130i\u0307\u03a3\u03c2\u03c3" : Text), inRanges ranges c = false

section

variable {ranges : List Range}

theorem inRanges_eq_false {c : CodePoint}
    (h : ∀ range ∈ ranges, c.toNat < range.1 ∨ range.2 < c.toNat) : inRanges ranges c = false := by
  simp only [inRanges, List.any_eq_false, Bool.and_eq_true, decide_eq_true_eq]
  intro range hrange hin
  have := h range hrange
  omega

theorem IsCaseless.inRanges_lowerChar (h : IsCaseless ranges) (c : CodePoint) :
    inRanges ranges (lowerChar c) = inRanges ranges c := by
  unfold lowerChar
  split
  · next hshift =>
    obtain ⟨⟨first, last, step, shift⟩, hrow, rfl⟩ := Option.map_eq_some_iff.mp hshift
    have hin := List.find?_some hrow
    have hapart := h.apart _ (List.mem_of_find?_eq_some hrow)
    simp only [Bool.and_eq_true, decide_eq_true_eq] at hin hapart
    have hbefore : inRanges ranges c = false := by
      refine inRanges_eq_false fun range hr => ?_
      have := hapart range hr
      omega
    rw [hbefore]
    dsimp only
    have hnumber := CodePoint.toNat_ofNat_eq_or ((c.toNat : Int) + shift).toNat
    generalize CodePoint.ofNat ((c.toNat : Int) + shift).toNat = image at hnumber ⊢
    by_cases hzero : image.toNat = 0
    · have hnull := h.others (.char '\u0000') (by decide)
      simp only [inRanges, hzero] at hnull ⊢
      exact hnull
    · refine inRanges_eq_false fun range hr => ?_
      have := hapart range hr
      omega
  · rfl

/-- Whatever a character becomes is in the ranges if it is in them itself. -/
theorem IsCaseless.lowerFrom_cons (h : IsCaseless ranges) (before text : Text) (c : CodePoint) :
    ∃ image, lowerFrom before (c :: text) = image ++ lowerFrom (c :: before) text ∧
      image ≠ [] ∧ ∀ d ∈ image, inRanges ranges d = inRanges ranges c := by
  have hothers (image : Text) (hc : inRanges ranges c = false)
      (himage : ∀ d ∈ image, d ∈ ("\u0000\u0130i\u0307\u03a3\u03c2\u03c3" : Text)) :
      ∀ d ∈ image, inRanges ranges d = inRanges ranges c :=
    fun d hd => (h.others d (himage d hd)).trans hc.symm
  refine ⟨_, rfl, ?_⟩
  split
  · next hc =>
    subst hc
    exact ⟨List.cons_ne_nil _ _, hothers _ (h.others _ (by decide)) (by decide)⟩
  split
  · next hc =>
    subst hc
    split
    · exact ⟨List.cons_ne_nil _ _, hothers _ (h.others _ (by decide)) (by decide)⟩
    · exact ⟨List.cons_ne_nil _ _, hothers _ (h.others _ (by decide)) (by decide)⟩
  · exact ⟨List.cons_ne_nil _ _, by simpa using h.inRanges_lowerChar c⟩

theorem IsCaseless.exists_mem_lower (h : IsCaseless ranges) (text : Text) (b : Bool) :
    (∃ c ∈ lower text, inRanges ranges c = b) ↔ ∃ c ∈ text, inRanges ranges c = b := by
  suffices h : ∀ before, (∃ c ∈ lowerFrom before text, inRanges ranges c = b) ↔
      ∃ c ∈ text, inRanges ranges c = b from h []
  induction text with
  | nil => exact fun _ => Iff.rfl
  | cons c text ih =>
    intro before
    obtain ⟨image, heq, hne, himage⟩ := h.lowerFrom_cons before text c
    obtain ⟨d, hd⟩ := List.exists_mem_of_ne_nil image hne
    have hc : (∃ d ∈ image, inRanges ranges d = b) ↔ inRanges ranges c = b :=
      ⟨fun ⟨d, hd, hb⟩ => (himage d hd).symm.trans hb, fun hb => ⟨d, hd, (himage d hd).trans hb⟩⟩
    simp only [heq, List.mem_append, or_and_right, exists_or, ih, hc, List.exists_mem_cons_iff]

theorem IsCaseless.forall_mem_lower (h : IsCaseless ranges) :
    (∀ c ∈ lower text, inRanges ranges c) ↔ ∀ c ∈ text, inRanges ranges c := by
  have hnone := not_congr (h.exists_mem_lower text false)
  simpa only [not_exists, not_and, Bool.not_eq_false] using hnone

end

theorem inRanges_cons_self (d : Char) (ranges : List Range) (c : CodePoint) :
    inRanges ((d.toNat, d.toNat) :: ranges) c ↔ c = .char d ∨ inRanges ranges c := by
  rw [← CodePoint.toNat_inj]
  simp only [inRanges, List.any_cons, Bool.or_eq_true, Bool.and_eq_true, decide_eq_true_eq]
  refine or_congr_left ?_
  change d.toNat ≤ c.toNat ∧ c.toNat ≤ d.toNat ↔ c.toNat = d.toNat
  omega

theorem isCaseless_backslash : IsCaseless [(0x5c, 0x5c)] where
  apart := by decide +kernel
  others := by decide

theorem backslash_mem_lower : CodePoint.char '\\' ∈ lower text ↔ CodePoint.char '\\' ∈ text := by
  have honly (c : CodePoint) : inRanges [(0x5c, 0x5c)] c ↔ c = .char '\\' :=
    (inRanges_cons_self '\\' [] c).trans (or_iff_left Bool.false_ne_true)
  have hlower := isCaseless_backslash.exists_mem_lower text true
  simpa only [honly, exists_eq_right] using hlower

/-- The comma and the blank characters. -/
def stops : List Range :=
  (0x2c, 0x2c) :: blankRanges

theorem inRanges_stops {c : CodePoint} : inRanges stops c ↔ c = .char ',' ∨ isBlank c :=
  inRanges_cons_self ',' blankRanges c

theorem isCaseless_stops : IsCaseless stops where
  apart := by decide +kernel
  others := by decide

/-- A character at which a word ends: what stands on one side of it has no influence on the
lower case of the other side. -/
def EndsWord (c : CodePoint) : Prop :=
  isCaseIgnorable c = false ∧ isCased c = false

theorem endsWord_of_stop {c : CodePoint} (h : inRanges stops c) : EndsWord c := by
  constructor
  · exact inRanges_eq_false_of_apart (by decide +kernel) h
  · exact inRanges_eq_false_of_apart (by decide +kernel) h

section

variable {c : CodePoint}

theorem meetsCased_append_cons (h : EndsWord c) (left right : Text) :
    meetsCased (left ++ c :: right) = meetsCased left := by
  induction left with
  | nil =>
    simp only [List.nil_append, meetsCased, h.1, h.2]
    rfl
  | cons d left ih => simp only [List.cons_append, meetsCased, ih]

theorem lowerFrom_append_cons (h : EndsWord c) (before left right : Text) :
    lowerFrom before (left ++ c :: right) =
      lowerFrom before left ++ lowerChar c :: lowerFrom (c :: (left.reverse ++ before)) right := by
  induction left generalizing before with
  | nil =>
    have hdotted : c ≠ .char '\u0130' := by
      rintro rfl
      exact absurd h.2 (by decide +kernel)
    have hsigma : c ≠ .char '\u03a3' := by
      rintro rfl
      exact absurd h.2 (by decide +kernel)
    simp [lowerFrom, hdotted, hsigma]
  | cons d left ih =>
    simp only [List.cons_append, lowerFrom, meetsCased_append_cons h, ih, List.append_assoc,
      List.reverse_cons, List.nil_append]

theorem lowerFrom_append_of_endsWord (h : EndsWord c) (seen before text : Text) :
    lowerFrom (seen ++ c :: before) text = lowerFrom seen text := by
  induction text generalizing seen with
  | nil => rfl
  | cons d text ih =>
    have hnext := ih (d :: seen)
    rw [List.cons_append] at hnext
    simp only [lowerFrom, meetsCased_append_cons h, hnext]

theorem lower_append_cons (h : EndsWord c) (left right : Text) :
    lower (left ++ c :: right) = lower left ++ lowerChar c :: lower right := by
  rw [lower, lowerFrom_append_cons h]
  have hright := lowerFrom_append_of_endsWord h [] (left.reverse ++ []) right
  rw [List.nil_append] at hright
  rw [hright]
  rfl

theorem lower_infix_of_mem_splitOn (h : EndsWord c) {part : Text} (hm : part ∈ splitOn c text) :
    lower part <:+: lower text := by
  have hjoin := joinWith_splitOn c text
  generalize splitOn c text = parts at hm hjoin
  subst hjoin
  induction parts with
  | nil => cases hm
  | cons first parts ih =>
    cases parts with
    | nil =>
      obtain rfl := List.mem_singleton.mp hm
      exact List.infix_rfl
    | cons next parts =>
      rw [joinWith_cons_cons, List.append_assoc, List.singleton_append, lower_append_cons h]
      rcases List.mem_cons.mp hm with rfl | hm
      · exact (List.prefix_append _ _).isInfix
      · refine (ih hm).trans ?_
        exact ((List.suffix_cons _ _).trans (List.suffix_append _ _)).isInfix

end

theorem lower_dropWhile_isBlank (text : Text) : lower (text.dropWhile isBlank) <:+ lower text := by
  induction text with
  | nil => exact List.suffix_rfl
  | cons c text ih =>
    rw [List.dropWhile_cons]
    split
    · next hc =>
      have hlower := lower_append_cons (endsWord_of_stop (inRanges_stops.mpr (.inr hc))) [] text
      rw [List.nil_append] at hlower
      rw [hlower]
      exact ih.trans ((List.suffix_cons _ _).trans (List.suffix_append _ _))
    · exact List.suffix_rfl

theorem lower_rdropWhile_isBlank (text : Text) :
    lower (List.rdropWhile isBlank text) <+: lower text := by
  induction text using List.reverseRecOn with
  | nil => exact List.prefix_rfl
  | append_singleton text c ih =>
    rw [List.rdropWhile_concat]
    split
    · next hc =>
      rw [lower_append_cons (endsWord_of_stop (inRanges_stops.mpr (.inr hc)))]
      exact ih.trans (List.prefix_append _ _)
    · exact List.prefix_rfl

theorem lower_trim_isInfix (text : Text) : lower (trim text) <:+: lower text := by
  rw [trim_eq]
  exact (lower_rdropWhile_isBlank _).isInfix.trans (lower_dropWhile_isBlank text).isInfix

end Text

end PreviewShots
