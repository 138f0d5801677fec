import PreviewShots.Dump.Type
import PreviewShots.Proofs.TypeRef.Tokens

/-!
# Types are read back

A type with a form in the notation is read from its text with full names, but for its error
flags, and every type is read from its form as an object (`Dump.written_types_are_read_back`).
The text that remains after a type begins with a comma or a bracket, where every name ends, and
the fuel of the reader is counted off against the length of the text.
-/

namespace PreviewShots

open Text

namespace TypeRef

mutual
/-- The type without its error flags, for which the notation has no sign. -/
def unflagged : TypeRef → TypeRef
  | ⟨name, arguments, nullable, _⟩ => ⟨name, argumentsUnflagged arguments, nullable, false⟩
def argumentsUnflagged : List TypeArgument → List TypeArgument
  | [] => []
  | argument :: rest => argumentUnflagged argument :: argumentsUnflagged rest
def argumentUnflagged : TypeArgument → TypeArgument
  | .star => .star
  | .projected variance none => .projected variance none
  | .projected variance (some type) => .projected variance (some type.unflagged)
end

mutual
/-- Whether the type or an argument in it is marked as an error. -/
def hasError : TypeRef → Bool
  | ⟨_, arguments, _, isError⟩ => isError || argumentsHaveError arguments
def argumentsHaveError : List TypeArgument → Bool
  | [] => false
  | argument :: rest => argumentHasError argument || argumentsHaveError rest
def argumentHasError : TypeArgument → Bool
  | .projected _ (some type) => type.hasError
  | _ => false
end

mutual
theorem unflagged_eq_self : ∀ {type : TypeRef}, type.hasError = false → type.unflagged = type
  | ⟨name, arguments, nullable, isError⟩, h => by
    obtain ⟨rfl, harguments⟩ : isError = false ∧ argumentsHaveError arguments = false := by
      simpa [hasError] using h
    rw [unflagged, argumentsUnflagged_eq_self harguments]
theorem argumentsUnflagged_eq_self : ∀ {arguments : List TypeArgument},
    argumentsHaveError arguments = false → argumentsUnflagged arguments = arguments
  | [], _ => rfl
  | argument :: rest, h => by
    obtain ⟨hfirst, hrest⟩ : argumentHasError argument = false ∧ argumentsHaveError rest = false := by
      simpa [argumentsHaveError] using h
    rw [argumentsUnflagged, argumentUnflagged_eq_self hfirst, argumentsUnflagged_eq_self hrest]
theorem argumentUnflagged_eq_self : ∀ {argument : TypeArgument},
    argumentHasError argument = false → argumentUnflagged argument = argument
  | .star, _ => rfl
  | .projected _ none, _ => rfl
  | .projected _ (some type), h => by rw [argumentUnflagged, unflagged_eq_self h]
end

theorem IsName.length_pos {name : Text} (h : IsName name) : 0 < name.length :=
  List.length_pos_iff.mpr h.ne_nil

theorem dropBlank_name {name rest : Text} (hname : IsName name) :
    dropBlank (name ++ rest) = name ++ rest := by
  cases name with
  | nil => exact absurd rfl hname.ne_nil
  | cons c cs =>
    have hc : isSeparator c = false ∧ isBlank c = false := by
      simpa [isNameCode] using hname.codes c (by simp)
    simp [dropBlank, hc.2]

theorem dropBlank_blank {c : Char} (h : isBlank c = true) (text : Text) :
    dropBlank (sign c ++ text) = dropBlank text := by
  simp [sign, dropBlank, h]

/-- A name that no blank follows is no variance. -/
theorem cutVariance_name {name rest : Text} (hname : IsName name) (hrest : IsTight rest) :
    cutVariance (name ++ rest) = ([], name ++ rest) := by
  obtain ⟨variance, -, start, hstart, ⟨rfl, rfl⟩ | ⟨hvariance, hblank, htext⟩⟩ :=
    cutVariance_cases (name ++ rest)
  · exact hstart
  · have hleft := (takeWhile_name hname.codes hrest.isCut).2
    rw [htext, (takeWhile_name hvariance.codes (isCut_of_isBlank hblank)).2] at hleft
    obtain ⟨c, hc, hblank⟩ := hblank
    have := isBlank_eq_false_of_isSeparator (hrest c (hleft ▸ hc))
    simp [this] at hblank

theorem cutVariance_variance {variance : Text} (hvariance : variance ∈ variances)
    (hne : variance ≠ []) (text : Text) :
    cutVariance (variance ++ (sign ' ' ++ text)) = (variance, sign ' ' ++ text) := by
  simp only [variances, List.mem_cons, List.not_mem_nil, or_false] at hvariance
  rcases hvariance with rfl | rfl | rfl
  · exact absurd rfl hne
  · rfl
  · rfl

/-- Where a type ends: the text is empty, or it begins with a comma or a closing bracket. -/
def IsEnd (text : Text) : Prop :=
  ∀ c ∈ text.head?, c = .char ',' ∨ c = .char '>'

theorem IsEnd.isTight {text : Text} (h : IsEnd text) : IsTight text := by
  intro c hc
  rcases h c hc with rfl | rfl <;> rfl

theorem IsEnd.head?_ne {text : Text} (h : IsEnd text) {c : CodePoint}
    (hc : c ≠ .char ',' ∧ c ≠ .char '>') : text.head? ≠ some c := by
  intro hhead
  rcases h c hhead with rfl | rfl
  · exact hc.1 rfl
  · exact hc.2 rfl

theorem isEnd_nil : IsEnd [] := by simp [IsEnd]

theorem isEnd_sign {c : Char} (h : c = ',' ∨ c = '>') (text : Text) : IsEnd (sign c ++ text) := by
  intro d hd
  obtain rfl : d = .char c := by simpa [sign, eq_comm] using hd
  rcases h with rfl | rfl
  · exact .inl rfl
  · exact .inr rfl

section

variable {total : Nat}

theorem typeAt_blank {c : Char} (h : isBlank c = true) (fuel : Nat) (text : Text) :
    typeAt total fuel (sign c ++ text) = typeAt total fuel text := by
  cases fuel with
  | zero => rfl
  | succ fuel => simp only [typeAt, dropBlank_blank h]

theorem argumentAt_blank {c : Char} (h : isBlank c = true) (fuel : Nat) (text : Text) :
    argumentAt total fuel (sign c ++ text) = argumentAt total fuel text := by
  cases fuel with
  | zero => rfl
  | succ fuel => simp only [argumentAt, dropBlank_blank h]

theorem argumentsAt_blank {c : Char} (h : isBlank c = true) (fuel : Nat) (text : Text) :
    argumentsAt total fuel (sign c ++ text) = argumentsAt total fuel text := by
  cases fuel with
  | zero => rfl
  | succ fuel => simp only [argumentsAt, argumentAt_blank h]

/-- What begins with a name begins with no star, unless the name does. -/
theorem argumentAt_name {name rest after : Text} {variance : Text} {type : TypeRef} {fuel : Nat}
    (hname : IsName name) (hstar : name.head? ≠ some (.char '*'))
    (hcut : cutVariance (name ++ rest) = (variance, after)) {left : Text}
    (htype : typeAt total fuel after = .ok (type, left)) :
    argumentAt total (fuel + 1) (name ++ rest) =
      .ok (.projected (.string variance) (some type), left) := by
  simp only [argumentAt, dropBlank_name hname]
  split
  · next heq =>
    have hhead := congrArg List.head? heq
    rw [List.head?_append_of_ne_nil _ hname.ne_nil] at hhead
    exact absurd hhead hstar
  · simp only [hcut, htype]

theorem length_source_pos {type : TypeRef} (h : type.IsWritten) :
    0 < (type.source Json.plain).length := by
  cases h with
  | mk hname _ =>
    have := hname.length_pos
    rw [source_mk hname, List.length_append]
    omega

theorem length_argumentSource_pos {argument : TypeArgument} (h : IsWrittenArgument argument) :
    0 < (argumentSource argument).length := by
  cases h with
  | star => decide
  | projected _ htype _ =>
    have := length_source_pos htype
    simp only [argumentSource, argumentSources.projection]
    split
    · simp only [List.length_append]
      omega
    · exact this

theorem length_argumentSources_pos {argument : TypeArgument} (h : IsWrittenArgument argument)
    (rest : List TypeArgument) :
    0 < (joinWith ", " (argumentSources Json.plain (argument :: rest))).length := by
  have hpos := length_argumentSource_pos h
  rw [argumentSources_cons]
  cases rest with
  | nil => exact hpos
  | cons next rest =>
    rw [joinWith_cons _ _ (argumentSources_ne_nil (by simp))]
    simp only [List.length_append]
    omega

-- Four calls lead from a type to a type within its brackets, and those are two characters.
mutual
theorem typeAt_source : ∀ {type : TypeRef}, type.IsWritten → ∀ {fuel : Nat} {rest : Text},
    4 * (type.source Json.plain).length ≤ fuel + 2 → IsEnd rest →
      typeAt total fuel (type.source Json.plain ++ rest) = .ok (type.unflagged, rest)
  | _, @IsWritten.mk name arguments nullable _ hname harguments, fuel, rest, hfuel, hrest => by
    have hquestion := isTight_question nullable hrest.isTight
    have hafter := isTight_bracketedSource arguments hquestion
    obtain ⟨htake, hdrop⟩ := takeWhile_name hname.codes hafter.isCut
    have hlength := hname.length_pos
    rw [source_mk hname] at hfuel ⊢
    simp only [List.length_append] at hfuel
    match fuel with
    | 0 => omega
    | fuel + 1 =>
      have hopen : ((if nullable then sign '?' else []) ++ rest).head? ≠ some (.char '<') := by
        cases nullable with
        | false => exact hrest.head?_ne (by decide)
        | true => simp [sign]
      simp only [List.append_assoc]
      simp only [typeAt, dropBlank_name hname, htake, hdrop, hafter.dropBlank,
        optionalArguments_source harguments (show 1 ≤ fuel by omega) (by omega) hopen,
        hquestion.dropBlank, List.isEmpty_eq_false_iff.mpr hname.ne_nil]
      cases nullable with
      | false =>
        simp only [Bool.false_eq_true, ↓reduceIte, List.nil_append]
        split
        · exact absurd rfl (hrest.head?_ne (c := .char '?') (by decide))
        · rfl
      | true => rfl
theorem optionalArguments_source : ∀ {arguments : List TypeArgument}, AreWritten arguments →
    ∀ {fuel : Nat} {rest : Text}, 1 ≤ fuel →
      4 * (bracketedSource arguments).length ≤ fuel + 6 → rest.head? ≠ some (.char '<') →
      optionalArguments total fuel (bracketedSource arguments ++ rest) =
        .ok (argumentsUnflagged arguments, rest)
  | _, _, 0, _, h, _, _ => absurd h (by decide)
  | _, .nil, fuel + 1, rest, _, _, hopen => by
    simp only [bracketedSource, List.isEmpty_nil, if_true, List.nil_append, optionalArguments]
    split
    · exact absurd rfl hopen
    · rfl
  | argument :: others, .cons h hothers, fuel + 1, rest, _, hfuel, _ => by
    have hinner : 4 * (joinWith ", " (argumentSources Json.plain (argument :: others))).length ≤
        fuel := by
      simp only [bracketedSource, sign, List.isEmpty_cons, Bool.false_eq_true, ↓reduceIte,
        List.length_append, List.length_singleton] at hfuel
      omega
    simpa [bracketedSource, sign, optionalArguments] using
      argumentsAt_source (.cons h hothers) rest (by simp) hinner
theorem argumentsAt_source : ∀ {arguments : List TypeArgument}, AreWritten arguments →
    ∀ {fuel : Nat} (rest : Text), arguments ≠ [] →
      4 * (joinWith ", " (argumentSources Json.plain arguments)).length ≤ fuel →
      argumentsAt total fuel
          (joinWith ", " (argumentSources Json.plain arguments) ++ (sign '>' ++ rest)) =
        .ok (argumentsUnflagged arguments, rest)
  | _, .nil, _, _, hne, _ => absurd rfl hne
  | argument :: others, .cons h _, 0, _, _, hfuel => by
    have := length_argumentSources_pos h others
    omega
  | [argument], .cons h _, fuel + 1, rest, _, hfuel => by
    have hlength : 4 * (argumentSource argument).length ≤ fuel + 1 := by
      simpa [argumentSources_cons, argumentSources, joinWith] using hfuel
    have hargument := argumentAt_source h hlength (isEnd_sign (.inr rfl) rest)
    have hrest := (isTight_sign (c := '>') rfl rest).dropBlank
    simp only [argumentSources_cons, argumentSources, joinWith, argumentsAt, hargument, hrest]
    rfl
  | argument :: next :: others, .cons h hothers, fuel + 1, rest, _, hfuel => by
    have hcomma : Text.ofString ", " = sign ',' ++ sign ' ' := rfl
    have htwo : (Text.ofString ", ").length = 2 := rfl
    rw [argumentSources_cons, joinWith_cons _ _ (argumentSources_ne_nil (by simp))] at hfuel ⊢
    simp only [List.length_append] at hfuel
    have hlength : 4 * (argumentSource argument).length ≤ fuel + 1 := by omega
    have hargument (after : Text) := argumentAt_source h hlength (isEnd_sign (.inl rfl) after)
    have hlater := argumentsAt_source hothers rest (by simp) (show _ ≤ fuel by omega)
    rw [← argumentsAt_blank (c := ' ') (by decide)] at hlater
    simp only [hcomma, List.append_assoc] at hlater ⊢
    simp only [argumentsAt, hargument, (isTight_sign (c := ',') rfl _).dropBlank]
    simp only [sign, List.singleton_append] at hlater ⊢
    simp only [hlater]
    rfl
theorem argumentAt_source : ∀ {argument : TypeArgument}, IsWrittenArgument argument →
    ∀ {fuel : Nat} {rest : Text}, 4 * (argumentSource argument).length ≤ fuel + 1 → IsEnd rest →
      argumentAt total fuel (argumentSource argument ++ rest) =
        .ok (argumentUnflagged argument, rest)
  | _, .star, 0, rest, hfuel, _ => absurd hfuel (by decide)
  | _, .star, fuel + 1, rest, hfuel, _ => rfl
  | _, .projected hvariance htype hstar, 0, rest, hfuel, _ => by
    have := length_argumentSource_pos (.projected hvariance htype hstar)
    omega
  | _, .projected hvariance htype hstar, fuel + 1, rest, hfuel, hrest => by
    have hlength := length_source_pos htype
    obtain rfl | ⟨hname, htruthy, hhead⟩ := variance_cases hvariance
    · have hparsed := typeAt_source htype hfuel hrest
      obtain @⟨name, arguments, nullable, isError, hname, -⟩ := htype
      rw [source_mk hname, List.append_assoc, List.append_assoc] at hparsed
      have hcut := cutVariance_name hname (isTight_bracketedSource arguments
        (isTight_question nullable hrest.isTight))
      have := argumentAt_name hname (hstar rfl) hcut hparsed
      simpa [argumentSource, argumentSources.projection, argumentUnflagged,
        Json.isTruthy, source_mk hname] using this
    · have hblank : Text.ofString " " = sign ' ' := rfl
      simp only [argumentSource, argumentSources.projection, htruthy, if_true, hblank,
        List.append_assoc, Json.plain, List.length_append] at hfuel ⊢
      have hparsed := typeAt_source htype (show _ ≤ fuel + 2 by omega) hrest
      rw [← typeAt_blank (c := ' ') (by decide)] at hparsed
      exact argumentAt_name hname hhead (cutVariance_variance hvariance hname.ne_nil _) hparsed
end
end

/-- The whole of a rendered type is read. -/
theorem parse_source {type : TypeRef} (h : type.IsWritten) :
    parse (type.source Json.plain) = .ok type.unflagged := by
  have hread (total : Nat) :
      typeAt total (4 * (type.source Json.plain).length + 4) (type.source Json.plain) =
        .ok (type.unflagged, []) := by
    have := @typeAt_source total type h (4 * (type.source Json.plain).length + 4) [] (by omega)
      isEnd_nil
    rwa [List.append_nil] at this
  simp [parse, hread, dropBlank]

-- ---------------------------------------------------------------------------
-- Objects
-- ---------------------------------------------------------------------------

def formMembers (name : Label) (arguments : List Json) (nullable isError : Bool) : List Member :=
  [⟨"name", name⟩, ⟨"arguments", .array arguments⟩, ⟨"nullable", .bool nullable⟩,
    ⟨"error", .bool isError⟩]

mutual
/-- The type as an object. -/
def form : TypeRef → Json
  | ⟨name, arguments, nullable, isError⟩ =>
    .object (formMembers name (argumentForms arguments) nullable isError)
def argumentForms : List TypeArgument → List Json
  | [] => []
  | argument :: rest => argumentForm argument :: argumentForms rest
def argumentForm : TypeArgument → Json
  | .star => .string "*"
  | .projected variance none => .object [⟨"variance", variance⟩]
  | .projected variance (some type) => projection variance type.form
where
  /-- A type without a variance stands by itself. -/
  projection : Label → Json → Json
    | .string [], type => type
    | variance, type => .object [⟨"variance", variance⟩, ⟨"type", type⟩]
end

end TypeRef

namespace Dump

open TypeRef

theorem projection_cases (variance : Label) (type : Json) :
    (variance = .string [] ∧ argumentForm.projection variance type = type) ∨
      argumentForm.projection variance type = .object [⟨"variance", variance⟩, ⟨"type", type⟩] := by
  unfold argumentForm.projection
  split
  · exact .inl ⟨rfl, rfl⟩
  · exact .inr rfl

theorem typeOfMembers_form (name : Label) (arguments : List TypeArgument) (nullable isError : Bool) :
    typeOfMembers (formMembers name (argumentForms arguments) nullable isError) arguments =
      ⟨name, arguments, nullable, isError⟩ := rfl

mutual
theorem type_form : ∀ ref : TypeRef, type ref.form = .ok (some ref)
  | ⟨name, arguments, nullable, isError⟩ => by
    have harguments := typeArgumentsIn_form name arguments nullable isError
    have hmembers := typeOfMembers_form name arguments nullable isError
    rw [form, type, harguments]
    exact congrArg (Except.ok ∘ some) hmembers
theorem typeArgumentsIn_form (name : Label) (arguments : List TypeArgument) (nullable isError : Bool) :
    typeArgumentsIn (formMembers name (argumentForms arguments) nullable isError) = .ok arguments := by
  rw [formMembers, typeArgumentsIn, if_neg (by decide), typeArgumentsIn, if_pos rfl, typeArguments,
    typeArgumentList_forms arguments]
theorem typeArgumentList_forms : ∀ arguments : List TypeArgument,
    typeArgumentList (argumentForms arguments) = .ok arguments
  | [] => by simp [typeArgumentList, argumentForms]
  | argument :: rest => by
    rw [argumentForms, typeArgumentList, typeArgument_form argument, typeArgumentList_forms rest]
    rfl
theorem typeArgument_form : ∀ argument : TypeArgument,
    typeArgument (argumentForm argument) = .ok argument
  | .star => by
    rw [argumentForm, typeArgument]
    rfl
  | .projected variance none => by
    rw [argumentForm, typeArgument, getMember?, if_pos rfl]
    dsimp only
    rw [typeIn, if_neg (by decide), typeIn]
    rfl
  | .projected variance (some ⟨name, arguments, nullable, isError⟩) => by
    rw [argumentForm]
    obtain ⟨rfl, hform⟩ | hform := projection_cases variance
      (form ⟨name, arguments, nullable, isError⟩)
    · have harguments := typeArgumentsIn_form name arguments nullable isError
      have hmembers := typeOfMembers_form name arguments nullable isError
      have hvariance : getMember? "variance"
          (formMembers name (argumentForms arguments) nullable isError) = none := rfl
      rw [hform, form, typeArgument, hvariance]
      dsimp only
      rw [harguments]
      exact congrArg (fun ref => Except.ok (TypeArgument.projected (.string []) (some ref))) hmembers
    · have href := type_form ⟨name, arguments, nullable, isError⟩
      rw [hform, typeArgument, getMember?, if_pos rfl]
      dsimp only
      rw [typeIn, if_neg (by decide), typeIn, if_pos rfl, href]
      rfl
end

theorem type_string (text : Text) :
    type (.string text) = match TypeRef.parse text with
      | .ok ref => .ok (some ref)
      | .error fault => .error (.dump (.typeNotation text fault)) := by
  rw [type, typeOfText]
  cases TypeRef.parse text <;> rfl

/-- Reading a text drops no token and adds none. Every type is read from its form as an object,
and one that can be written at all from what it is rendered to, save for error flags, which
cannot be written. -/
theorem written_types_are_read_back :
    (∀ (text : Text) (ref : TypeRef), TypeRef.parse text = .ok ref →
      text.tokens = (ref.source Json.plain).tokens) ∧
    (∀ ref : TypeRef, type ref.form = .ok (some ref)) ∧
    ∀ ref : TypeRef, ref.IsWritten →
      type (.string (ref.source Json.plain)) = .ok (some ref.unflagged) ∧
      (ref.hasError = false → type (.string (ref.source Json.plain)) = .ok (some ref)) := by
  refine ⟨fun text ref h => ?_, type_form, fun ref h => ?_⟩
  · obtain ⟨htokens, hwritten⟩ := tokens_parse h
    have hsource := tokens_source hwritten (show IsTight [] by simp [IsTight])
    rw [List.append_nil, Text.tokens, List.append_nil] at hsource
    rw [htokens, hsource]
  · have hread : type (.string (ref.source Json.plain)) = .ok (some ref.unflagged) := by
      rw [type_string, parse_source h]
    refine ⟨hread, fun herror => ?_⟩
    rwa [unflagged_eq_self herror] at hread

/-- A class may be called `in`. -/
def boxOfIn : TypeRef :=
  ⟨.string "Box", [.star, .projected (.string "out") (some ⟨.string "in", [], true, false⟩),
    .projected (.string "") (some ⟨.string "in", [], false, false⟩)], false, false⟩

theorem boxOfIn_is_read_back :
    TypeRef.parse "Box< *,out in ? , in>" = .ok boxOfIn ∧ boxOfIn.IsWritten ∧
    boxOfIn.hasError = false ∧
    Text.tokens "Box< *,out in ? , in>" = (boxOfIn.source Json.plain).tokens ∧
    type (.string (boxOfIn.source Json.plain)) = .ok (some boxOfIn) ∧
    type boxOfIn.form = .ok (some boxOfIn) := by
  have hparse : TypeRef.parse "Box< *,out in ? , in>" = .ok boxOfIn := by cbv
  have hwritten : boxOfIn.IsWritten := (tokens_parse hparse).2
  have herror : boxOfIn.hasError = false := by rfl
  obtain ⟨htokens, hform, hread⟩ := written_types_are_read_back
  exact ⟨hparse, hwritten, herror, htokens _ _ hparse, (hread boxOfIn hwritten).2 herror,
    hform boxOfIn⟩

def itemInError : TypeRef := ⟨.string "app.Item", [], false, true⟩

/-- The argument is no star, but its type is missing. -/
def boxOfGap : TypeRef := ⟨.string "app.Box", [.projected (.string "") none], false, false⟩

/-- A mark of an error is lost in the text, and a missing type comes back as a star. -/
theorem unwritten_not_read_back :
    itemInError.IsWritten ∧
    type (.string (itemInError.source Json.plain)) =
      .ok (some ⟨.string "app.Item", [], false, false⟩) ∧
    type (.string (itemInError.source Json.plain)) ≠ .ok (some itemInError) ∧
    type (.string (boxOfGap.source Json.plain)) =
      .ok (some ⟨.string "app.Box", [.star], false, false⟩) ∧
    type (.string (boxOfGap.source Json.plain)) ≠ .ok (some boxOfGap) := by
  have hwritten : itemInError.IsWritten := .mk ⟨by decide, by decide⟩ .nil
  have hitem : type (.string (itemInError.source Json.plain)) =
      .ok (some ⟨.string "app.Item", [], false, false⟩) := by cbv
  have hbox : type (.string (boxOfGap.source Json.plain)) =
      .ok (some ⟨.string "app.Box", [.star], false, false⟩) := by cbv
  refine ⟨hwritten, hitem, ?_, hbox, ?_⟩
  · rw [hitem]
    simp [itemInError]
  · rw [hbox]
    simp [boxOfGap]

end Dump

end PreviewShots
