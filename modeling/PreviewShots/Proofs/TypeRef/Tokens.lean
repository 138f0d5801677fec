import PreviewShots.Proofs.Name
import PreviewShots.TypeRef.Notation
import Mathlib.Data.List.Basic
import Mathlib.Data.List.TakeWhile

/-!
# What a type is written with

A text in the notation is a row of tokens: separators, and names between them. Blanks only
set tokens apart. A type that is read from a text has the tokens of that text, and the text
it is rendered to has them as well, so that reading drops and adds none.
-/

namespace PreviewShots

open Text

namespace Text

open TypeRef in
/-- Blanks set tokens apart and are none; a separator is a token of its own, and so is each
longest run of other code points. -/
def tokens : Text → List Text
  | [] => []
  | c :: cs =>
    if isBlank c then tokens cs
    else if isSeparator c then [c] :: tokens cs
    else (c :: cs.takeWhile isNameCode) :: tokens (cs.dropWhile isNameCode)
termination_by text => text.length
decreasing_by
  · simp
  · simp
  · exact Nat.lt_succ_of_le (List.dropWhile_sublist _).length_le

end Text

namespace TypeRef

/-- A name cannot go on where the text begins. -/
def IsCut (text : Text) : Prop :=
  ∀ c ∈ text.head?, isNameCode c = false

theorem isCut_dropWhile (text : Text) : IsCut (text.dropWhile isNameCode) := by
  intro c hc
  have := List.head?_dropWhile_not isNameCode text
  grind

theorem isBlank_eq_false_of_isSeparator {c : CodePoint} (h : isSeparator c = true) :
    isBlank c = false := by
  simp only [isSeparator, Bool.or_eq_true, decide_eq_true_eq] at h
  rcases h with ((rfl | rfl) | rfl) | rfl <;> decide

theorem tokens_dropBlank (text : Text) : (dropBlank text).tokens = text.tokens := by
  induction text with
  | nil => rfl
  | cons c cs ih =>
    by_cases h : isBlank c
    · rw [tokens, if_pos h, ← ih]
      simp [dropBlank, h]
    · simp [dropBlank, h]

theorem tokens_separator {c : CodePoint} (h : isSeparator c = true) (text : Text) :
    tokens (c :: text) = [c] :: tokens text := by
  rw [tokens, isBlank_eq_false_of_isSeparator h, h]
  simp

theorem takeWhile_name {name rest : Text} (hname : ∀ c ∈ name, isNameCode c = true)
    (hrest : IsCut rest) :
    (name ++ rest).takeWhile isNameCode = name ∧ (name ++ rest).dropWhile isNameCode = rest := by
  rw [List.takeWhile_append_of_pos hname, List.dropWhile_append_of_pos hname]
  cases rest with
  | nil => simp
  | cons d ds => simp [hrest d rfl]

theorem tokens_name {name rest : Text} (hne : name ≠ []) (hname : ∀ c ∈ name, isNameCode c = true)
    (hrest : IsCut rest) : tokens (name ++ rest) = name :: tokens rest := by
  obtain ⟨htake, hdrop⟩ := takeWhile_name hname hrest
  cases name with
  | nil => exact absurd rfl hne
  | cons c cs =>
    have hc : isNameCode c = true := hname c List.mem_cons_self
    have hsep : isSeparator c = false ∧ isBlank c = false := by simpa [isNameCode] using hc
    rw [List.cons_append] at htake hdrop ⊢
    rw [List.takeWhile_cons_of_pos hc, List.cons.injEq] at htake
    rw [List.dropWhile_cons_of_pos hc] at hdrop
    rw [tokens, hsep.1, hsep.2, htake.2, hdrop]
    simp

theorem isCut_of_isBlank {text : Text} (h : ∃ c ∈ text.head?, isBlank c) : IsCut text := by
  obtain ⟨c, hc, hblank⟩ := h
  intro d hd
  obtain rfl := Option.mem_unique hc hd
  simp [isNameCode, hblank]

theorem isCut_of_dropBlank {text rest : Text} {c : CodePoint}
    (h : dropBlank text = c :: rest) (hc : isSeparator c = true) : IsCut text := by
  cases text with
  | nil => simp [IsCut]
  | cons d ds =>
    by_cases hd : isBlank d
    · simp [IsCut, isNameCode, hd]
    · obtain ⟨rfl, -⟩ : d = c ∧ ds = rest := by simpa [dropBlank, hd] using h
      simp [IsCut, isNameCode, hc]

theorem dropBlank_dropBlank (text : Text) : dropBlank (dropBlank text) = dropBlank text := by
  induction text with
  | nil => rfl
  | cons c cs ih => by_cases hc : isBlank c <;> simp_all [dropBlank]

-- ---------------------------------------------------------------------------
-- Types and their tokens
-- ---------------------------------------------------------------------------

/-- A separator as a token. -/
def sign (c : Char) : Text := [.char c]

/-- Arguments between brackets, commas between them. -/
def bracketed : List (List Text) → List Text
  | [] => []
  | arguments => sign '<' :: joinWith [sign ','] arguments ++ [sign '>']

mutual
/-- What a type is written with, apart from blanks. -/
def tokens : TypeRef → List Text
  | ⟨name, arguments, nullable, _⟩ =>
    name.plain :: bracketed (argumentTokens arguments) ++ if nullable then [sign '?'] else []
def argumentTokens : List TypeArgument → List (List Text)
  | [] => []
  | argument :: rest => tokensOfArgument argument :: argumentTokens rest
def tokensOfArgument : TypeArgument → List Text
  | .star => [sign '*']
  | .projected variance none => projection variance [sign '*']
  | .projected variance (some type) => projection variance type.tokens
where
  projection (variance : Label) (type : List Text) : List Text :=
    if variance.isTruthy then variance.plain :: type else type
end

structure IsName (name : Text) : Prop where
  ne_nil : name ≠ []
  codes : ∀ c ∈ name, isNameCode c = true

def variances : List Text := ["", "in", "out"]

mutual
/-- The type has a form in the notation. -/
inductive IsWritten : TypeRef → Prop
  | mk {name : Text} {arguments : List TypeArgument} {nullable isError : Bool} :
      IsName name → AreWritten arguments → IsWritten ⟨.string name, arguments, nullable, isError⟩
inductive AreWritten : List TypeArgument → Prop
  | nil : AreWritten []
  | cons {argument : TypeArgument} {rest : List TypeArgument} :
      IsWrittenArgument argument → AreWritten rest → AreWritten (argument :: rest)
inductive IsWrittenArgument : TypeArgument → Prop
  | star : IsWrittenArgument .star
  | projected {variance : Text} {type : TypeRef} :
      variance ∈ variances → IsWritten type →
      (variance = [] → type.name.plain.head? ≠ some (.char '*')) →
      IsWrittenArgument (.projected (.string variance) (some type))
end

theorem bracketed_eq {arguments : List (List Text)} (h : arguments ≠ []) :
    bracketed arguments = sign '<' :: joinWith [sign ','] arguments ++ [sign '>'] := by
  cases arguments with
  | nil => exact absurd rfl h
  | cons => rfl

theorem argumentTokens_ne_nil {arguments : List TypeArgument} (h : arguments ≠ []) :
    argumentTokens arguments ≠ [] := by
  cases arguments with
  | nil => exact absurd rfl h
  | cons => simp [argumentTokens]

-- ---------------------------------------------------------------------------
-- Reading
-- ---------------------------------------------------------------------------

section

variable {total : Nat}

theorem cutVariance_cases (text : Text) :
    ∃ variance ∈ variances, ∃ rest, cutVariance text = (variance, rest) ∧
      (variance = [] ∧ rest = text ∨
        IsName variance ∧ (∃ c ∈ rest.head?, isBlank c) ∧ text = variance ++ rest) := by
  simp only [cutVariance]
  split
  · split
    · exact ⟨_, by decide, _, rfl, .inr ⟨⟨by decide, by decide⟩, ⟨_, rfl, ‹_›⟩, rfl⟩⟩
    · exact ⟨_, by decide, _, rfl, .inl ⟨rfl, rfl⟩⟩
  · split
    · exact ⟨_, by decide, _, rfl, .inr ⟨⟨by decide, by decide⟩, ⟨_, rfl, ‹_›⟩, rfl⟩⟩
    · exact ⟨_, by decide, _, rfl, .inl ⟨rfl, rfl⟩⟩
  · exact ⟨_, by decide, _, rfl, .inl ⟨rfl, rfl⟩⟩

mutual
theorem tokens_typeAt : ∀ {fuel : Nat} {text rest : Text} {type : TypeRef},
    typeAt total fuel text = .ok (type, rest) →
      text.tokens = type.tokens ++ rest.tokens ∧ type.IsWritten ∧
        type.name.plain = (dropBlank text).takeWhile isNameCode
  | 0, _, _, _, h => by simp [typeAt] at h
  | fuel + 1, text, rest, type, h => by
    simp only [typeAt] at h
    split at h
    · simp at h
    next hne =>
    split at h
    · simp at h
    next arguments after harguments =>
    obtain ⟨htokens, hwritten⟩ := tokens_optionalArguments harguments
    have hname : IsName ((dropBlank text).takeWhile isNameCode) :=
      ⟨by simpa using hne, fun c hc => List.mem_takeWhile_imp hc⟩
    have htext : text.tokens = (dropBlank text).takeWhile isNameCode ::
        (bracketed (argumentTokens arguments) ++ (dropBlank after).tokens) := by
      rw [tokens_dropBlank after, ← htokens, tokens_dropBlank, ← tokens_name hname.ne_nil
        hname.codes (isCut_dropWhile _), List.takeWhile_append_dropWhile, tokens_dropBlank]
    split at h
    · next later hlater =>
      obtain ⟨rfl, rfl⟩ : _ = type ∧ _ = rest := by simpa using h
      rw [hlater, tokens_separator rfl] at htext
      refine ⟨?_, .mk hname hwritten, rfl⟩
      simpa [tokens, Json.plain, sign] using htext
    · obtain ⟨rfl, rfl⟩ : _ = type ∧ _ = rest := by simpa using h
      refine ⟨?_, .mk hname hwritten, rfl⟩
      simpa [tokens, Json.plain, sign] using htext
theorem tokens_optionalArguments : ∀ {fuel : Nat} {text rest : Text}
    {arguments : List TypeArgument}, optionalArguments total fuel text = .ok (arguments, rest) →
      text.tokens = bracketed (argumentTokens arguments) ++ rest.tokens ∧ AreWritten arguments
  | 0, _, _, _, h => by simp [optionalArguments] at h
  | fuel + 1, text, rest, arguments, h => by
    simp only [optionalArguments] at h
    split at h
    · next inner =>
      obtain ⟨hne, htokens, hwritten⟩ := tokens_argumentsAt h
      rw [tokens_separator rfl, htokens, bracketed_eq (argumentTokens_ne_nil hne)]
      exact ⟨by simp [sign], hwritten⟩
    · obtain ⟨rfl, rfl⟩ : [] = arguments ∧ _ = rest := by simpa using h
      exact ⟨rfl, .nil⟩
theorem tokens_argumentsAt : ∀ {fuel : Nat} {text rest : Text} {arguments : List TypeArgument},
    argumentsAt total fuel text = .ok (arguments, rest) → arguments ≠ [] ∧
      text.tokens = joinWith [sign ','] (argumentTokens arguments) ++ sign '>' :: rest.tokens ∧
        AreWritten arguments
  | 0, _, _, _, h => by simp [argumentsAt] at h
  | fuel + 1, text, rest, arguments, h => by
    simp only [argumentsAt] at h
    split at h
    · simp at h
    next argument after hargument =>
    split at h
    · simp at h
    · next later hlater =>
      split at h
      · simp at h
      next others last hothers =>
      obtain ⟨rfl, rfl⟩ : argument :: others = arguments ∧ last = rest := by simpa using h
      obtain ⟨htokens, hwritten⟩ := tokens_argumentAt hargument (isCut_of_dropBlank hlater rfl)
      obtain ⟨hne, hrest, hall⟩ := tokens_argumentsAt hothers
      rw [← tokens_dropBlank after, hlater, tokens_separator rfl, hrest] at htokens
      refine ⟨by simp, ?_, .cons hwritten hall⟩
      rw [argumentTokens, joinWith_cons _ _ (argumentTokens_ne_nil hne), htokens]
      simp [sign]
    · next later hlater =>
      obtain ⟨rfl, rfl⟩ : [argument] = arguments ∧ later = rest := by simpa using h
      obtain ⟨htokens, hwritten⟩ := tokens_argumentAt hargument (isCut_of_dropBlank hlater rfl)
      rw [← tokens_dropBlank after, hlater, tokens_separator rfl] at htokens
      exact ⟨by simp, htokens, .cons hwritten .nil⟩
    · simp at h
theorem tokens_argumentAt : ∀ {fuel : Nat} {text rest : Text} {argument : TypeArgument},
    argumentAt total fuel text = .ok (argument, rest) → IsCut rest →
      text.tokens = tokensOfArgument argument ++ rest.tokens ∧ IsWrittenArgument argument
  | 0, _, _, _, h, _ => by simp [argumentAt] at h
  | fuel + 1, text, rest, argument, h, hcut => by
    simp only [argumentAt] at h
    split at h
    · next later hlater =>
      obtain ⟨rfl, rfl⟩ : TypeArgument.star = argument ∧ later = rest := by simpa using h
      rw [← tokens_dropBlank text, hlater]
      have hname : IsName (sign '*') := ⟨by decide, by decide⟩
      exact ⟨tokens_name hname.ne_nil hname.codes hcut, .star⟩
    next hstar =>
    obtain ⟨variance, hvariance, start, hstart, hcases⟩ := cutVariance_cases (dropBlank text)
    rw [hstart] at h
    dsimp only at h
    split at h
    · simp at h
    next type later htype =>
    obtain ⟨rfl, rfl⟩ : _ = argument ∧ later = rest := by simpa using h
    obtain ⟨htokens, hwritten, hname⟩ := tokens_typeAt htype
    rw [← tokens_dropBlank text]
    obtain ⟨rfl, rfl⟩ | ⟨hne, hblank, htext⟩ := hcases
    · refine ⟨by simpa [tokensOfArgument, tokensOfArgument.projection, Json.isTruthy] using htokens,
        .projected hvariance hwritten fun _ hhead => ?_⟩
      rw [hname, dropBlank_dropBlank] at hhead
      cases htext : dropBlank text with
      | nil => simp [htext] at hhead
      | cons c cs =>
        by_cases hc : isNameCode c
        · obtain rfl : c = .char '*' := by simpa [htext, hc] using hhead
          exact hstar cs htext
        · simp [htext, hc] at hhead
    · refine ⟨?_, .projected hvariance hwritten fun h => absurd h hne.ne_nil⟩
      rw [htext, tokens_name hne.ne_nil hne.codes (isCut_of_isBlank hblank), htokens]
      simp [tokensOfArgument, tokensOfArgument.projection, Json.isTruthy, hne.ne_nil, Json.plain]
end
end

theorem tokens_eq_nil {text : Text} (h : (dropBlank text).isEmpty) : text.tokens = [] := by
  rw [← tokens_dropBlank, List.isEmpty_iff.mp h, Text.tokens]

/-- What is read is what the text is written with. -/
theorem tokens_parse {text : Text} {type : TypeRef} (h : parse text = .ok type) :
    text.tokens = type.tokens ∧ type.IsWritten := by
  simp only [parse] at h
  split at h
  · simp at h
  next type' rest htype =>
  split at h
  · next hrest =>
    obtain rfl : type' = type := by simpa using h
    obtain ⟨htokens, hwritten, -⟩ := tokens_typeAt htype
    rw [tokens_eq_nil hrest, List.append_nil] at htokens
    exact ⟨htokens, hwritten⟩
  · simp at h

-- ---------------------------------------------------------------------------
-- Rendering
-- ---------------------------------------------------------------------------

def bracketedSource (arguments : List TypeArgument) : Text :=
  if arguments.isEmpty then []
  else sign '<' ++ joinWith ", " (argumentSources Json.plain arguments) ++ sign '>'

theorem source_mk {name : Text} (h : IsName name) (arguments : List TypeArgument)
    (nullable isError : Bool) :
    source Json.plain ⟨.string name, arguments, nullable, isError⟩ =
      name ++ (bracketedSource arguments ++ if nullable then sign '?' else []) := by
  have htrue : (Json.string name).isTruthy = true := by simp [Json.isTruthy, h.ne_nil]
  simp only [source, htrue]
  cases arguments <;> cases nullable <;> simp [bracketedSource, sign, Json.plain] <;> rfl

def argumentSource : TypeArgument → Text
  | .star => "*"
  | .projected variance none => argumentSources.projection variance "*"
  | .projected variance (some type) => argumentSources.projection variance (type.source Json.plain)

theorem argumentSources_cons (argument : TypeArgument) (rest : List TypeArgument) :
    argumentSources Json.plain (argument :: rest) =
      argumentSource argument :: argumentSources Json.plain rest := by
  rcases argument with _ | ⟨variance, _ | type⟩ <;> rfl

theorem argumentSources_ne_nil {arguments : List TypeArgument} (h : arguments ≠ []) :
    argumentSources Json.plain arguments ≠ [] := by
  cases arguments with
  | nil => exact absurd rfl h
  | cons => simp [argumentSources_cons]

theorem tokens_sign {c : Char} (h : isSeparator c = true) (text : Text) :
    Text.tokens (sign c ++ text) = sign c :: text.tokens :=
  tokens_separator h text

theorem tokens_blank {c : Char} (h : isBlank c = true) (text : Text) :
    Text.tokens (sign c ++ text) = text.tokens := by
  rw [← tokens_dropBlank, ← tokens_dropBlank text]
  simp [sign, dropBlank, h]

theorem isCut_blank {c : Char} (h : isBlank c = true) (text : Text) : IsCut (sign c ++ text) :=
  isCut_of_isBlank ⟨_, rfl, h⟩

/-- The text begins with a separator, unless it is empty. -/
def IsTight (text : Text) : Prop :=
  ∀ c ∈ text.head?, isSeparator c = true

theorem IsTight.isCut {text : Text} (h : IsTight text) : IsCut text :=
  fun c hc => by simp [isNameCode, h c hc]

theorem IsTight.dropBlank {text : Text} (h : IsTight text) : dropBlank text = text := by
  cases text with
  | nil => rfl
  | cons c cs => simp [Text.dropBlank, isBlank_eq_false_of_isSeparator (h c rfl)]

theorem isTight_sign {c : Char} (h : isSeparator c = true) (text : Text) :
    IsTight (sign c ++ text) := by
  intro d hd
  obtain rfl : d = .char c := by simpa [sign, eq_comm] using hd
  exact h

theorem isTight_question {rest : Text} (nullable : Bool) (h : IsTight rest) :
    IsTight ((if nullable then sign '?' else []) ++ rest) := by
  cases nullable with
  | false => exact h
  | true => exact isTight_sign rfl rest

theorem isTight_bracketedSource {rest : Text} (arguments : List TypeArgument) (h : IsTight rest) :
    IsTight (bracketedSource arguments ++ rest) := by
  cases arguments with
  | nil => exact h
  | cons =>
    simp only [bracketedSource, List.isEmpty_cons, Bool.false_eq_true, ↓reduceIte, List.append_assoc]
    exact isTight_sign rfl _

theorem variance_cases {variance : Text} (h : variance ∈ variances) :
    variance = [] ∨ IsName variance ∧ (Json.string variance).isTruthy = true ∧
      variance.head? ≠ some (.char '*') := by
  simp only [variances, List.mem_cons, List.not_mem_nil, or_false] at h
  rcases h with rfl | rfl | rfl
  · exact .inl rfl
  · exact .inr ⟨⟨by decide, by decide⟩, rfl, by decide⟩
  · exact .inr ⟨⟨by decide, by decide⟩, rfl, by decide⟩

mutual
theorem tokens_source : ∀ {type : TypeRef}, type.IsWritten → ∀ {rest : Text}, IsTight rest →
    Text.tokens (type.source Json.plain ++ rest) = type.tokens ++ rest.tokens
  | _, @IsWritten.mk name arguments nullable _ hname harguments, rest, hrest => by
    have hquestion := isTight_question nullable hrest
    rw [source_mk hname, List.append_assoc, List.append_assoc, tokens_name hname.ne_nil hname.codes
      (isTight_bracketedSource arguments hquestion).isCut, tokens_bracketedSource harguments]
    cases nullable with
    | false => simp [tokens, Json.plain]
    | true =>
      have hmark : Text.tokens (sign '?' ++ rest) = sign '?' :: rest.tokens := tokens_sign rfl rest
      simp [tokens, Json.plain, hmark]
theorem tokens_bracketedSource : ∀ {arguments : List TypeArgument}, AreWritten arguments →
    ∀ {rest : Text}, Text.tokens (bracketedSource arguments ++ rest) =
      bracketed (argumentTokens arguments) ++ rest.tokens
  | _, .nil, rest => rfl
  | _, .cons h hothers, rest => by
    rw [bracketed_eq (argumentTokens_ne_nil (by simp))]
    simp only [bracketedSource, List.isEmpty_cons, Bool.false_eq_true, ↓reduceIte, List.append_assoc]
    rw [tokens_sign rfl, tokens_argumentSources (.cons h hothers)]
    rfl
theorem tokens_argumentSources : ∀ {arguments : List TypeArgument}, AreWritten arguments →
    ∀ {rest : Text},
      Text.tokens (joinWith ", " (argumentSources Json.plain arguments) ++ (sign '>' ++ rest)) =
        joinWith [sign ','] (argumentTokens arguments) ++ sign '>' :: rest.tokens
  | _, .nil, rest => tokens_sign rfl rest
  | [argument], .cons h _, rest => by
    have hclose := tokens_argumentSource h (isTight_sign (c := '>') rfl rest)
    rw [tokens_sign rfl] at hclose
    rwa [argumentSources_cons]
  | argument :: next :: others, .cons h hothers, rest => by
    have hcomma : Text.ofString ", " = sign ',' ++ sign ' ' := rfl
    rw [argumentSources_cons, argumentTokens, joinWith_cons _ _ (argumentSources_ne_nil (by simp)),
      joinWith_cons _ _ (argumentTokens_ne_nil (by simp)), hcomma]
    simp only [List.append_assoc]
    rw [tokens_argumentSource h (isTight_sign rfl _), tokens_sign rfl, tokens_blank (by decide), ← hcomma,
      tokens_argumentSources hothers]
    simp
theorem tokens_argumentSource : ∀ {argument : TypeArgument}, IsWrittenArgument argument →
    ∀ {rest : Text}, IsTight rest →
      Text.tokens (argumentSource argument ++ rest) = tokensOfArgument argument ++ rest.tokens
  | _, .star, rest, hrest =>
    have hstar : IsName (sign '*') := ⟨by decide, by decide⟩
    tokens_name hstar.ne_nil hstar.codes hrest.isCut
  | _, .projected hvariance htype _, rest, hrest => by
    have htokens := tokens_source htype hrest
    obtain rfl | ⟨hname, htruthy, -⟩ := variance_cases hvariance
    · exact htokens
    · have hblank : Text.ofString " " = sign ' ' := rfl
      simp only [argumentSource, argumentSources.projection, tokensOfArgument,
        tokensOfArgument.projection, htruthy, if_true, hblank, List.append_assoc, Json.plain]
      rw [tokens_name hname.ne_nil hname.codes (isCut_blank (by decide) _), tokens_blank (by decide),
        htokens]
      rfl
end

end TypeRef

end PreviewShots
