import PreviewShots.StringLiteral

/-!
# String literals are faithful

Six passes over a text, each of which escapes one code point, come to one pass that escapes all
of them, since the backslash goes first (`encode_eq_passes`). What is written scans from the left
as plain code points and escapes, up to the closing quote and not beyond, and stands for the text
it was made of. A literal is read as a text just where it was written from it (`ofText_faithful`).
-/

namespace PreviewShots.StringLiteral

variable {text body literal rest : Text}

-- ---------------------------------------------------------------------------
-- Passes
-- ---------------------------------------------------------------------------

/-- The text with the escape in the place of the code point, wherever that stands. -/
def pass (c : CodePoint) (escape text : Text) : Text :=
  text.flatMap fun d => if d = c then escape else [d]

def escapes : List (CodePoint × Text) :=
  [('\\', "\\\\"), ('"', "\\\""), ('$', "\\$"), ('\n', "\\n"), ('\r', "\\r"), ('\t', "\\t")]

/-- The text after one pass for each of the escapes, where each pass sees what the earlier ones
have written. -/
def passes (escapes : List (CodePoint × Text)) (text : Text) : Text :=
  escapes.foldl (fun text (c, escape) => pass c escape text) text

/-- Passes go through a text code point by code point. -/
theorem passes_eq_flatMap (escapes : List (CodePoint × Text)) (text : Text) :
    passes escapes text = text.flatMap fun c => passes escapes [c] := by
  suffices h : ∀ parts : CodePoint → Text,
      passes escapes (text.flatMap parts) = text.flatMap fun c => passes escapes (parts c) by
    simpa using h fun c => [c]
  induction escapes with
  | nil => exact fun _ => rfl
  | cons first others ih =>
    intro parts
    have hfirst : pass first.1 first.2 (text.flatMap parts) =
        text.flatMap fun c => pass first.1 first.2 (parts c) :=
      List.flatMap_assoc
    exact (congrArg (passes others) hfirst).trans (ih _)

theorem passes_singleton (c : CodePoint) : passes escapes [c] = encodeChar c := by
  unfold encodeChar
  repeat' split
  case isFalse hbackslash hquote hdollar hfeed hreturn htab =>
    simp [passes, escapes, pass, hbackslash, hquote, hdollar, hfeed, hreturn, htab]
  all_goals subst c; decide

theorem encode_eq_passes (text : Text) : encode text = passes escapes text := by
  rw [passes_eq_flatMap, encode]
  simp only [passes_singleton]

-- ---------------------------------------------------------------------------
-- Scanning
-- ---------------------------------------------------------------------------

/-- Code points that never stand for themselves between the quotes. -/
def IsSpecial (c : CodePoint) : Prop :=
  c = '\\' ∨ c = '"' ∨ c = '$' ∨ c = '\n' ∨ c = '\r' ∨ c = '\t'

/-- From left to right the body holds code points that stand for themselves and escapes, and
nothing else; together they stand for the text. -/
inductive Scans : Text → Text → Prop
  | nil : Scans [] []
  | plain {c : CodePoint} {body text : Text} : ¬ IsSpecial c → Scans body text →
      Scans (c :: body) (c :: text)
  | escape {e c : CodePoint} {body text : Text} : decodeEscape? e = some c → Scans body text →
      Scans (.char '\\' :: e :: body) (c :: text)

theorem encodeChar_of_not_isSpecial {c : CodePoint} (h : ¬ IsSpecial c) : encodeChar c = [c] := by
  simp only [IsSpecial, not_or] at h
  simp [encodeChar, h]

/-- Each special code point has one escape, and an escape stands for one code point. -/
theorem decodeEscape?_eq_some {e c : CodePoint} :
    decodeEscape? e = some c ↔ IsSpecial c ∧ encodeChar c = [.char '\\', e] := by
  constructor
  · intro h
    unfold decodeEscape? at h
    repeat' split at h
    · next he =>
      cases h
      simp only [Bool.or_eq_true, decide_eq_true_eq] at he
      rcases he with (rfl | rfl) | rfl <;> exact ⟨by simp [IsSpecial], by decide⟩
    · next he =>
      cases h
      exact ⟨by simp [IsSpecial], by rw [he]; decide⟩
    · next he =>
      cases h
      exact ⟨by simp [IsSpecial], by rw [he]; decide⟩
    · next he =>
      cases h
      exact ⟨by simp [IsSpecial], by rw [he]; decide⟩
    · cases h
  · rintro ⟨hspecial, he⟩
    rcases hspecial with rfl | rfl | rfl | rfl | rfl | rfl <;> cases he <;> decide

theorem scans_encode (text : Text) : Scans (encode text) text := by
  induction text with
  | nil => exact .nil
  | cons c cs ih =>
    by_cases hc : IsSpecial c
    · obtain ⟨e, he⟩ : ∃ e, encodeChar c = [.char '\\', e] := by
        rcases hc with rfl | rfl | rfl | rfl | rfl | rfl <;> exact ⟨_, rfl⟩
      have hescape := decodeEscape?_eq_some.mpr ⟨hc, he⟩
      simpa [encode, he] using Scans.escape hescape ih
    · simpa [encode, encodeChar_of_not_isSpecial hc] using Scans.plain hc ih

theorem Scans.eq_encode (h : Scans body text) : body = encode text := by
  induction h with
  | nil => rfl
  | plain hc _ ih => simp [encode, encodeChar_of_not_isSpecial hc, ih]
  | escape he _ ih => simp [encode, (decodeEscape?_eq_some.mp he).2, ih]

-- ---------------------------------------------------------------------------
-- Reading
-- ---------------------------------------------------------------------------

theorem decodeBody_quote (rest : Text) : decodeBody (.char '"' :: rest) = some ([], rest) := by
  simp [decodeBody.eq_def (.char '"' :: rest)]

theorem decodeBody_plain {c : CodePoint} (h : ¬ IsSpecial c) (rest : Text) :
    decodeBody (c :: rest) = (decodeBody rest).map fun (text, last) => (c :: text, last) := by
  simp only [IsSpecial, not_or] at h
  simp only [decodeBody.eq_def (c :: rest), h, decide_false, Bool.or_self, Bool.false_eq_true,
    ↓reduceIte]
  cases decodeBody rest <;> rfl

theorem decodeBody_escape (e : CodePoint) (rest : Text) :
    decodeBody (.char '\\' :: e :: rest) = (decodeEscape? e).bind fun c =>
      (decodeBody rest).map fun (text, last) => (c :: text, last) := by
  simp only [decodeBody.eq_def (.char '\\' :: e :: rest), CodePoint.char.injEq, Char.reduceEq,
    decide_false, Bool.or_self, Bool.false_eq_true, ↓reduceIte]
  cases decodeEscape? e with
  | none => rfl
  | some c => cases decodeBody rest <;> rfl

/-- A body is read to the first quote that is not escaped. -/
theorem Scans.decodeBody_append (h : Scans body text) (rest : Text) :
    decodeBody (body ++ .char '"' :: rest) = some (text, rest) := by
  induction h with
  | nil => exact decodeBody_quote rest
  | plain hc _ ih => rw [List.cons_append, decodeBody_plain hc, ih, Option.map_some]
  | escape he _ ih =>
    rw [List.cons_append, List.cons_append, decodeBody_escape, he, ih]
    rfl

theorem exists_scans (h : decodeBody literal = some (text, rest)) :
    ∃ body, Scans body text ∧ literal = body ++ .char '"' :: rest := by
  induction literal using decodeBody.induct generalizing text with
  | case1 => cases h
  | case2 cs =>
    cases (decodeBody_quote cs).symm.trans h
    exact ⟨[], .nil, rfl⟩
  | case3 c cs hquote hraw => simp [decodeBody.eq_def (c :: cs), hquote, hraw] at h
  | case4 => cases h
  | case5 e cs _ _ ih =>
    rw [decodeBody_escape] at h
    obtain ⟨c, he, hrest⟩ := Option.bind_eq_some_iff.mp h
    obtain ⟨⟨_, _⟩, hbody, hfound⟩ := Option.map_eq_some_iff.mp hrest
    cases hfound
    obtain ⟨body, hscans, rfl⟩ := ih hbody
    exact ⟨_, .escape he hscans, rfl⟩
  | case6 c cs hquote hraw hbackslash ih =>
    have hplain : ¬ IsSpecial c := by simp_all [IsSpecial]
    rw [decodeBody_plain hplain] at h
    obtain ⟨⟨_, _⟩, hbody, hfound⟩ := Option.map_eq_some_iff.mp h
    cases hfound
    obtain ⟨body, hscans, rfl⟩ := ih hbody
    exact ⟨_, .plain hplain hscans, rfl⟩

/-- A literal is read as a text, with a rest behind it, if it is the one written from the text
with that rest behind it, and not otherwise. -/
theorem decode_eq_some : decode literal = some (text, rest) ↔ literal = ofText text ++ rest := by
  constructor
  · intro h
    unfold decode at h
    split at h
    · obtain ⟨body, hscans, rfl⟩ := exists_scans h
      rw [hscans.eq_encode, ofText, List.append_assoc, List.append_assoc]
      rfl
    · cases h
  · rintro rfl
    rw [ofText, List.append_assoc, List.append_assoc]
    exact (scans_encode text).decodeBody_append rest

theorem Scans.not_mem (h : Scans body text) {c : CodePoint} (hc : c = '\n' ∨ c = '\r' ∨ c = '\t') :
    c ∉ body := by
  induction h with
  | nil => exact List.not_mem_nil
  | @plain d _ _ hd _ ih =>
    have hne : c ≠ d := by
      rintro rfl
      exact hd (.inr (.inr (.inr hc)))
    simp [hne, ih]
  | @escape e _ _ _ he _ ih =>
    have hne : c ≠ e := by
      rintro rfl
      rcases hc with rfl | rfl | rfl <;> simp [decodeEscape?] at he
    have hbackslash : c ≠ .char '\\' := by rcases hc with rfl | rfl | rfl <;> decide
    simp [hne, hbackslash, ih]

/-- A literal is what six passes over the text leave, between quotes. No line end or tab is in
it, it scans as the text, and it is read as the text; so no other text has the same literal. -/
theorem ofText_faithful (text : Text) :
    ofText text = "\"" ++ passes escapes text ++ "\"" ∧ Scans (passes escapes text) text ∧
    (∀ c ∈ ofText text, c ≠ '\n' ∧ c ≠ '\r' ∧ c ≠ '\t') ∧
    (∀ literal rest, decode literal = some (text, rest) ↔ literal = ofText text ++ rest) ∧
    ∀ other, ofText other = ofText text → other = text := by
  rw [← encode_eq_passes]
  have hscans := scans_encode text
  refine ⟨rfl, hscans, fun c hm => ?_, fun _ _ => decode_eq_some, fun other he => ?_⟩
  · have hkept : ¬ (c = '\n' ∨ c = '\r' ∨ c = '\t') := by
      intro hc
      rcases List.mem_append.mp hm with hm | hm
      · rcases List.mem_append.mp hm with hm | hm
        · obtain rfl := List.mem_singleton.mp hm
          exact absurd hc (by decide)
        · exact hscans.not_mem hc hm
      · obtain rfl := List.mem_singleton.mp hm
        exact absurd hc (by decide)
    simpa only [not_or] using hkept
  · have hread : decode (ofText text) = some (other, []) :=
      decode_eq_some.mpr (by rw [he, List.append_nil])
    have hsame : decode (ofText text) = some (text, []) :=
      decode_eq_some.mpr (List.append_nil _).symm
    cases hread.symm.trans hsame
    rfl

end PreviewShots.StringLiteral
