import PreviewShots.Proofs.Dependence
import PreviewShots.Proofs.Name
import PreviewShots.Proofs.Spelling

/-!
# Identifiers of a test

The text of a test is put together from identifiers and from code around them. The names of
functions and parameters are escaped, the labels of arguments are written as they stand, and
the suffix is put behind a name that may be between backticks already. So all identifiers are
well formed if a name between backticks gets no suffix and no label needs backticks, and never
otherwise (`identifiers_wellFormed_iff`).
-/

open PreviewShots.Task

namespace PreviewShots

-- ---------------------------------------------------------------------------
-- Names
-- ---------------------------------------------------------------------------

namespace Name

variable {name inner suffix : Text}

/-- A letter, and letters and digits behind it. -/
def IsIdentifier (name : Text) : Prop :=
  ∃ c cs, name = c :: cs ∧ isLetter c ∧ ∀ d ∈ cs, isLetter d ∨ isDigit d

/-- A text without backticks stands between two of them. -/
def IsQuoted (name : Text) : Prop :=
  ∃ inner, name = tick :: (inner ++ [tick]) ∧ tick ∉ inner

/-- A plain identifier that is no hard keyword, or one between backticks. -/
def IsWellFormed (name : Text) : Prop :=
  IsIdentifier name ∧ name ∉ hardKeywords ∨ IsQuoted name

/-- What a name can be: on one line, and without backticks or between two of them. -/
structure IsLegal (name : Text) : Prop where
  ne_nil : name ≠ []
  no_feed : CodePoint.char '\n' ∉ name
  ticks : tick ∉ name ∨ IsQuoted name

theorem isTicked_quote (inner : Text) : isTicked (tick :: (inner ++ [tick])) := by
  rw [← List.cons_append, isTicked, List.getLast?_concat]
  rfl

theorem IsQuoted.isTicked (h : IsQuoted name) : isTicked name := by
  obtain ⟨inner, rfl, -⟩ := h
  exact isTicked_quote inner

theorem isPlain_iff (hfeed : CodePoint.char '\n' ∉ name) : isPlain name ↔ IsIdentifier name := by
  have hlast : name.getLast? ≠ some (.char '\n') := fun hl => hfeed (List.mem_of_getLast? hl)
  cases name with
  | nil => simp [isPlain, IsIdentifier]
  | cons c cs => simp [isPlain, IsIdentifier, hlast]

theorem IsIdentifier.not_mem {c : CodePoint} (h : IsIdentifier name) (hletter : isLetter c = false)
    (hdigit : isDigit c = false) : c ∉ name := by
  obtain ⟨d, ds, rfl, hd, hds⟩ := h
  rintro (_ | ⟨_, hm⟩)
  · simp [hletter] at hd
  · simpa [hletter, hdigit] using hds c hm

theorem IsIdentifier.tick_not_mem (h : IsIdentifier name) : tick ∉ name :=
  h.not_mem (by decide) (by decide)

theorem IsIdentifier.feed_not_mem (h : IsIdentifier name) : CodePoint.char '\n' ∉ name :=
  h.not_mem (by decide) (by decide)

/-- Without backticks in it a name is escaped to one that is well formed. -/
theorem isWellFormed_escape_of_not_mem (hfeed : CodePoint.char '\n' ∉ name) (h : tick ∉ name) :
    IsWellFormed (escape name) := by
  simp only [escape, isTicked_eq_false h, Bool.false_eq_true, ↓reduceIte]
  split
  · exact .inr ⟨name, rfl, h⟩
  · next hplain =>
    simp only [Bool.or_eq_true, decide_eq_true_eq, not_or, Bool.not_eq_true',
      Bool.not_eq_false] at hplain
    exact .inl ⟨(isPlain_iff hfeed).mp hplain.2, hplain.1⟩

theorem escape_of_isQuoted (h : IsQuoted name) : escape name = name := by
  simp [escape, h.isTicked]

theorem IsLegal.isWellFormed_escape (h : IsLegal name) : IsWellFormed (escape name) := by
  rcases h.ticks with hnone | hquoted
  · exact isWellFormed_escape_of_not_mem h.no_feed hnone
  · rw [escape_of_isQuoted hquoted]
    exact .inr hquoted

theorem IsWellFormed.escape_eq (h : IsWellFormed name) : escape name = name := by
  rcases h with ⟨hplain, hkeyword⟩ | hquoted
  · have hticked := isTicked_eq_false hplain.tick_not_mem
    simp [escape, hticked, hkeyword, (isPlain_iff hplain.feed_not_mem).mpr hplain]
  · exact escape_of_isQuoted hquoted

/-- A legal name is well formed as it stands if it needs no backticks. -/
theorem IsLegal.isWellFormed_iff (h : IsLegal name) : IsWellFormed name ↔ escape name = name :=
  ⟨IsWellFormed.escape_eq, fun heq => heq ▸ h.isWellFormed_escape⟩

theorem not_isWellFormed_quote (h : tick ∈ inner) : ¬ IsWellFormed (tick :: (inner ++ [tick])) := by
  rintro (⟨hplain, -⟩ | ⟨other, heq, hnone⟩)
  · exact hplain.tick_not_mem List.mem_cons_self
  · exact hnone (List.append_cancel_right (List.cons.inj heq).2 ▸ h)

/-- A suffix may stand behind a name without backticks, and behind no other. -/
theorem IsLegal.isWellFormed_suffixed_iff (h : IsLegal name)
    (hsuffix : ∀ c ∈ suffix, isLetter c ∨ isDigit c) :
    IsWellFormed (escape (name ++ suffix)) ↔ tick ∉ name ∨ suffix = [] := by
  have hnot {c : CodePoint} (hletter : isLetter c = false) (hdigit : isDigit c = false) :
      c ∉ suffix := fun hm => by simpa [hletter, hdigit] using hsuffix c hm
  have htick : tick ∉ suffix := hnot (by decide) (by decide)
  by_cases hnone : tick ∉ name
  · have hfeed : CodePoint.char '\n' ∉ suffix := hnot (by decide) (by decide)
    refine iff_of_true (isWellFormed_escape_of_not_mem ?_ ?_) (.inl hnone)
    · simp [h.no_feed, hfeed]
    · simp [hnone, htick]
  by_cases hempty : suffix = []
  · rw [hempty, List.append_nil]
    exact iff_of_true h.isWellFormed_escape (.inr rfl)
  have hmem : tick ∈ name ++ suffix := List.mem_append_left _ (not_not.mp hnone)
  have hlast : isTicked (name ++ suffix) = false := by
    rw [isTicked, List.getLast?_append_of_ne_nil _ hempty, Bool.and_eq_false_iff]
    exact .inr (beq_eq_false_iff_ne.mpr fun hl => htick (List.mem_of_getLast? hl))
  have hplain : isPlain (name ++ suffix) = false := by
    refine Bool.eq_false_iff.mpr fun hplain => ?_
    have hfeed : CodePoint.char '\n' ∉ name ++ suffix := by
      simp [h.no_feed, hnot (c := .char '\n') (by decide) (by decide)]
    exact ((isPlain_iff hfeed).mp hplain).tick_not_mem hmem
  refine iff_of_false ?_ (not_or.mpr ⟨hnone, hempty⟩)
  rw [escape, hlast, hplain]
  simpa using not_isWellFormed_quote hmem

end Name

-- ---------------------------------------------------------------------------
-- Tokens
-- ---------------------------------------------------------------------------

/-- A part of the text of a test. -/
inductive Token where
  | code (text : Text)
  | identifier (text : Text)
  deriving DecidableEq

def Token.text : Token → Text
  | .code text => text
  | .identifier text => text

def Token.named : Token → List Text
  | .code _ => []
  | .identifier text => [text]

/-- The text that the tokens come to. -/
def Token.joined (tokens : List Token) : Text :=
  tokens.flatMap Token.text

def Token.identifiers (tokens : List Token) : List Text :=
  tokens.flatMap Token.named

namespace Text

theorem flatMap_joinWith {α β : Type} (f : α → List β) (sep : List α) (parts : List (List α)) :
    (joinWith sep parts).flatMap f = joinWith (sep.flatMap f) (parts.map (·.flatMap f)) := by
  induction parts with
  | nil => rfl
  | cons part parts ih =>
    cases parts with
    | nil => rfl
    | cons next parts =>
      rw [joinWith_cons_cons, List.flatMap_append, List.flatMap_append, ih]
      rfl

theorem joinWith_nil {α : Type} (parts : List (List α)) : joinWith [] parts = parts.flatten := by
  induction parts with
  | nil => rfl
  | cons part parts ih =>
    cases parts with
    | nil => simp [joinWith]
    | cons next parts => simp [joinWith_cons_cons, ih]

end Text

/-- The label of an argument is an identifier. -/
def labelledTokens (name : Label) (value : List Token) : List Token :=
  if name.isTruthy then .identifier name.plain :: .code " = " :: value else value

mutual
def Literal.tokens (spelling : Spelling) : Literal → List Token
  | .string text => [.code (StringLiteral.ofText text)]
  | .classRef name => [.code (spelling name ++ "::class")]
  | .list items =>
    .code "[" :: (Text.joinWith [.code ", "] (Literal.tokensOfAll spelling items) ++ [.code "]"])
  | .nested value => value.tokens spelling
  | .other value source => [.code (otherSource value source)]
def Literal.tokensOfAll (spelling : Spelling) : List Literal → List (List Token)
  | [] => []
  | item :: items => item.tokens spelling :: Literal.tokensOfAll spelling items
def Annotation.tokens (spelling : Spelling) : Annotation → List Token
  | ⟨typeName, shortName, arguments, _⟩ =>
    .code (if typeName.isTruthy then spelling typeName else shortName.plain) :: .code "(" ::
      (Text.joinWith [.code ", "] (Argument.tokensOfAll spelling arguments) ++ [.code ")"])
def Argument.tokensOfAll (spelling : Spelling) : List Argument → List (List Token)
  | [] => []
  | ⟨name, value⟩ :: rest =>
    labelledTokens name (value.tokens spelling) :: Argument.tokensOfAll spelling rest
end

mutual
/-- The labels of the arguments in an annotation, in order. -/
def Literal.labels : Literal → List Label
  | .string _ => []
  | .classRef _ => []
  | .list items => Literal.labelsOfAll items
  | .nested value => value.labels
  | .other _ _ => []
def Literal.labelsOfAll : List Literal → List Label
  | [] => []
  | item :: items => item.labels ++ Literal.labelsOfAll items
def Annotation.labels : Annotation → List Label
  | ⟨_, _, arguments, _⟩ => Argument.labelsOfAll arguments
def Argument.labelsOfAll : List Argument → List Label
  | [] => []
  | ⟨name, value⟩ :: rest =>
    (if name.isTruthy then [name] else []) ++ value.labels ++ Argument.labelsOfAll rest
end

section

variable {spelling : Spelling}

@[simp] theorem Token.joined_append (left right : List Token) :
    joined (left ++ right) = joined left ++ joined right :=
  List.flatMap_append

@[simp] theorem Token.joined_code (text : Text) (rest : List Token) :
    joined (.code text :: rest) = text ++ joined rest := rfl

@[simp] theorem Token.joined_identifier (text : Text) (rest : List Token) :
    joined (.identifier text :: rest) = text ++ joined rest := rfl

@[simp] theorem Token.joined_nil : joined [] = [] := rfl

@[simp] theorem Token.identifiers_append (left right : List Token) :
    identifiers (left ++ right) = identifiers left ++ identifiers right :=
  List.flatMap_append

@[simp] theorem Token.identifiers_code (text : Text) (rest : List Token) :
    identifiers (.code text :: rest) = identifiers rest := rfl

@[simp] theorem Token.identifiers_identifier (text : Text) (rest : List Token) :
    identifiers (.identifier text :: rest) = text :: identifiers rest := rfl

@[simp] theorem Token.identifiers_nil : identifiers [] = [] := rfl

theorem joined_labelled (name : Label) (value : List Token) :
    Token.joined (labelledTokens name value) = labelled name (Token.joined value) := by
  simp only [labelledTokens, labelled]
  split <;> simp

theorem joined_joinWith (sep : Text) (parts : List (List Token)) :
    Token.joined (Text.joinWith [.code sep] parts) =
      Text.joinWith sep (parts.map Token.joined) := by
  have hsep : [Token.code sep].flatMap Token.text = sep := List.append_nil sep
  rw [Token.joined, Text.flatMap_joinWith, hsep]
  rfl

theorem identifiers_joinWith (sep : Text) (parts : List (List Token)) :
    Token.identifiers (Text.joinWith [.code sep] parts) =
      (parts.map Token.identifiers).flatten := by
  rw [Token.identifiers, Text.flatMap_joinWith, ← Text.joinWith_nil]
  rfl

mutual
theorem Literal.joined_tokens : ∀ value : Literal,
    Token.joined (value.tokens spelling) = value.source spelling
  | .string _ => by simp [Literal.tokens, Literal.source]
  | .classRef _ => by simp [Literal.tokens, Literal.source]
  | .list items => by
    simp [Literal.tokens, Literal.source, joined_joinWith, Literal.joined_tokensOfAll items]
  | .nested value => value.joined_tokens
  | .other _ _ => by simp [Literal.tokens, Literal.source]
theorem Literal.joined_tokensOfAll : ∀ items : List Literal,
    (Literal.tokensOfAll spelling items).map Token.joined = Literal.sources spelling items
  | [] => rfl
  | item :: items => by
    simp [Literal.tokensOfAll, Literal.sources, item.joined_tokens,
      Literal.joined_tokensOfAll items]
theorem Annotation.joined_tokens : ∀ a : Annotation,
    Token.joined (a.tokens spelling) = a.source spelling
  | ⟨_, _, arguments, _⟩ => by
    simp [ Annotation.tokens, Annotation.source, joined_joinWith,
      Argument.joined_tokensOfAll arguments]
theorem Argument.joined_tokensOfAll : ∀ arguments : List Argument,
    (Argument.tokensOfAll spelling arguments).map Token.joined = Argument.sources spelling arguments
  | [] => rfl
  | ⟨name, value⟩ :: rest => by
    simp [Argument.tokensOfAll, Argument.sources, joined_labelled, value.joined_tokens,
      Argument.joined_tokensOfAll rest]
end

theorem identifiers_labelled (name : Label) (value : List Token) :
    Token.identifiers (labelledTokens name value) =
      (if name.isTruthy then [name] else []).map Json.plain ++ Token.identifiers value := by
  simp only [labelledTokens]
  split <;> simp

mutual
theorem Literal.identifiers_tokens : ∀ value : Literal,
    Token.identifiers (value.tokens spelling) = value.labels.map Json.plain
  | .string _ => rfl
  | .classRef _ => rfl
  | .list items => by
    simp [Literal.tokens, Literal.labels, identifiers_joinWith,
      Literal.identifiers_tokensOfAll items]
  | .nested value => value.identifiers_tokens
  | .other _ _ => rfl
theorem Literal.identifiers_tokensOfAll : ∀ items : List Literal,
    ((Literal.tokensOfAll spelling items).map Token.identifiers).flatten =
      (Literal.labelsOfAll items).map Json.plain
  | [] => rfl
  | item :: items => by
    simp [Literal.tokensOfAll, Literal.labelsOfAll, item.identifiers_tokens,
      Literal.identifiers_tokensOfAll items]
theorem Annotation.identifiers_tokens : ∀ a : Annotation,
    Token.identifiers (a.tokens spelling) = a.labels.map Json.plain
  | ⟨_, _, arguments, _⟩ => by
    simp [ Annotation.tokens, Annotation.labels, identifiers_joinWith,
      Argument.identifiers_tokensOfAll arguments]
theorem Argument.identifiers_tokensOfAll : ∀ arguments : List Argument,
    ((Argument.tokensOfAll spelling arguments).map Token.identifiers).flatten =
      (Argument.labelsOfAll arguments).map Json.plain
  | [] => rfl
  | ⟨name, value⟩ :: rest => by
    simp [Argument.tokensOfAll, Argument.labelsOfAll, identifiers_labelled,
      value.identifiers_tokens, Argument.identifiers_tokensOfAll rest]
end

end

-- ---------------------------------------------------------------------------
-- Tests
-- ---------------------------------------------------------------------------

namespace Synthesis

def writtenTokens (spelling : Spelling) (table : SymbolTable) (a : Annotation)
    (arguments : List Argument) : List Token :=
  let name : Text := match typeName? table a with
    | some n => spelling n
    | none => a.shortName.plain
  let applied : List Token := if arguments.isEmpty then []
    else .code "(" :: (Text.joinWith [.code ", "] (Argument.tokensOfAll spelling arguments) ++
      [.code ")"])
  .code "@" :: .code name :: applied

def annotationTokens (spelling : Spelling) (table : SymbolTable) (config : Config)
    (markers : List Annotation) : List (List Token) :=
  markers.map (fun a => writtenTokens spelling table a (keptArguments table a)) ++
    (fixedNames config).map fun name => [.code (fixed spelling name)]

def declaredTokens (spelling : Spelling) (table : SymbolTable) (provider : Provider) : List Token :=
  writtenTokens spelling table provider.mark (providerArguments provider.mark.arguments) ++
    [.code " ", .identifier (Name.escape provider.parameter.name.plain),
      .code (": " ++ provider.parameter.type.source spelling)]

def passedTokens (provider : Provider) : List Token :=
  let name := Name.escape provider.parameter.name.plain
  if provider.index = 0 then [.identifier name]
  else [.identifier name, .code " = ", .identifier name]

def bodyTokens (config : Config) (function : FunctionDecl) (signature call : List Token) :
    List (List Token) :=
  [ .code (modifier function ++ "fun ") :: .identifier (Name.escape (testName config function)) ::
      .code "(" :: (signature ++ [.code ") \x7b"]),
    .code indent :: .identifier (Name.escape function.simpleName.plain) :: .code "(" ::
      (call ++ [.code ")"]),
    [.code "\x7d"] ]

/-- The test in tokens. -/
def tokens (spelling : Spelling) (table : SymbolTable) (config : Config) (eligible : Eligible) :
    List Token :=
  let provider := provider? table config eligible.function
  Text.joinWith [.code "\n"] (annotationTokens spelling table config eligible.markers ++
    bodyTokens config eligible.function ((provider.map (declaredTokens spelling table)).getD [])
      ((provider.map passedTokens).getD []))

/-- The labels of all arguments that the test is written with. -/
def labels (table : SymbolTable) (config : Config) (eligible : Eligible) : List Label :=
  eligible.markers.flatMap (fun a => Argument.labelsOfAll (keptArguments table a)) ++
    ((provider? table config eligible.function).map fun provider =>
      Argument.labelsOfAll (providerArguments provider.mark.arguments)).getD []

variable {spelling : Spelling} {table : SymbolTable} {config : Config} {eligible : Eligible}

theorem joined_written (a : Annotation) (arguments : List Argument) :
    Token.joined (writtenTokens spelling table a arguments) =
      written spelling table a arguments := by
  have hlist : Token.joined (Text.joinWith [.code ", "] (Argument.tokensOfAll spelling arguments)) =
      Text.joinWith ", " (arguments.map (·.source spelling)) := by
    rw [joined_joinWith, Argument.joined_tokensOfAll, Argument.sources_eq_map]
  have hempty : Text.ofString "" = [] := rfl
  cases hname : typeName? table a <;> cases arguments <;>
    simp [writtenTokens, written, hname, hlist, hempty]

theorem identifiers_written (a : Annotation) (arguments : List Argument) :
    Token.identifiers (writtenTokens spelling table a arguments) =
      (Argument.labelsOfAll arguments).map Json.plain := by
  cases arguments with
  | nil => simp [writtenTokens, Argument.labelsOfAll]
  | cons argument rest =>
    simp [writtenTokens, identifiers_joinWith, Argument.identifiers_tokensOfAll (argument :: rest)]

theorem joined_annotationTokens (markers : List Annotation) :
    (annotationTokens spelling table config markers).map Token.joined =
      annotations spelling table config markers := by
  simp [annotationTokens, annotations, joined_written, Function.comp_def]

theorem joined_signature (provider : Option Provider) :
    Token.joined ((provider.map (declaredTokens spelling table)).getD []) =
      signature spelling table provider := by
  cases provider with
  | none => rfl
  | some provider => simp [declaredTokens, signature, declared, joined_written]

theorem joined_call (provider : Option Provider) :
    Token.joined ((provider.map passedTokens).getD []) = call provider := by
  cases provider with
  | none => rfl
  | some provider =>
    simp only [Option.map_some, Option.getD_some, passedTokens, call, passed]
    split <;> simp

/-- Put together, the tokens are the text of the test. -/
theorem joined_tokens (spelling : Spelling) (table : SymbolTable) (config : Config)
    (eligible : Eligible) :
    Token.joined (tokens spelling table config eligible) = text spelling table config eligible := by
  simp [tokens, text, joined_joinWith, joined_annotationTokens, bodyTokens, body, joined_signature,
    joined_call]

theorem identifiers_annotationTokens (markers : List Annotation) :
    ((annotationTokens spelling table config markers).map Token.identifiers).flatten =
      (markers.flatMap fun a => Argument.labelsOfAll (keptArguments table a)).map Json.plain := by
  have hfixed : ((fixedNames config).map fun name =>
      Token.identifiers [.code (fixed spelling name)]).flatten = [] := by simp
  simp [annotationTokens, identifiers_written, Function.comp_def, List.flatMap_def]

theorem mem_identifiers_passed {provider : Provider} {name : Text} :
    name ∈ Token.identifiers (passedTokens provider) ↔
      name = Name.escape provider.parameter.name.plain := by
  simp only [passedTokens]
  split <;> simp

/-- The identifiers of a test are the labels of its arguments, and the names of the two functions
and of the parameter, escaped. -/
theorem mem_identifiers {name : Text} :
    name ∈ Token.identifiers (tokens spelling table config eligible) ↔
      name ∈ (labels table config eligible).map Json.plain ∨
      name = Name.escape (testName config eligible.function) ∨
      name = Name.escape eligible.function.simpleName.plain ∨
      ∃ provider, provider? table config eligible.function = some provider ∧
        name = Name.escape provider.parameter.name.plain := by
  simp only [tokens, labels, identifiers_joinWith, List.map_append, List.flatten_append,
    identifiers_annotationTokens, List.mem_append]
  cases provider? table config eligible.function with
  | none => simp [bodyTokens]
  | some provider =>
    simp only [bodyTokens, declaredTokens, Option.map_some, Option.getD_some, List.map_cons,
      List.map_nil, List.flatten_cons, List.flatten_nil, Token.identifiers_append,
      Token.identifiers_code, Token.identifiers_identifier, Token.identifiers_nil,
      identifiers_written, List.mem_append, List.mem_cons, List.not_mem_nil, mem_identifiers_passed,
      Option.some.injEq, exists_eq_left']
    tauto

/-- The names that a test is written with are legal, and the suffix is made of letters and
digits. -/
structure IsLegal (table : SymbolTable) (config : Config) (eligible : Eligible) : Prop where
  function : Name.IsLegal eligible.function.simpleName.plain
  parameters : ∀ parameter ∈ eligible.function.parameters, Name.IsLegal parameter.name.plain
  labels : ∀ label ∈ labels table config eligible, Name.IsLegal label.plain
  suffix : ∀ c ∈ config.suffix, Name.isLetter c ∨ Name.isDigit c

/-- The identifiers of the test that a synthesis writes are well formed, if and only if a name
between backticks gets no suffix and no label of an argument needs backticks. -/
theorem identifiers_wellFormed_iff {classifier classifier' : Classifier} {world world' : World}
    {fragment : Fragment}
    (h : Ends (eligible.synthesize table config) classifier world fragment classifier' world')
    (hlegal : IsLegal table config eligible) :
    fragment.template = .string (Token.joined (tokens .deferred table config eligible)) ∧
    ((∀ name ∈ Token.identifiers (tokens .deferred table config eligible), Name.IsWellFormed name) ↔
      (Name.tick ∉ eligible.function.simpleName.plain ∨ config.suffix = []) ∧
      ∀ label ∈ labels table config eligible, Name.escape label.plain = label.plain) := by
  obtain ⟨hfragment, -⟩ := Eligible.ends_synthesize h
  refine ⟨by rw [eq_of_fragment? hfragment, joined_tokens]; rfl, ?_⟩
  have hlabel : ∀ label ∈ labels table config eligible,
      Name.IsWellFormed label.plain ↔ Name.escape label.plain = label.plain :=
    fun label hm => (hlegal.labels label hm).isWellFormed_iff
  have hsuffixed := hlegal.function.isWellFormed_suffixed_iff hlegal.suffix
  constructor
  · intro hall
    refine ⟨hsuffixed.mp (hall _ (mem_identifiers.mpr (.inr (.inl rfl)))), fun label hm => ?_⟩
    exact (hlabel label hm).mp (hall _ (mem_identifiers.mpr (.inl (List.mem_map_of_mem hm))))
  · rintro ⟨hplain, hlabels⟩ name hname
    obtain hname | rfl | rfl | ⟨provider, hp, rfl⟩ := mem_identifiers.mp hname
    · obtain ⟨label, hm, rfl⟩ := List.mem_map.mp hname
      exact (hlabel label hm).mpr (hlabels label hm)
    · exact hsuffixed.mpr hplain
    · exact hlegal.function.isWellFormed_escape
    · exact (hlegal.parameters _ (mem_of_provider? hp).1).isWellFormed_escape

/-- A parameter with a provider. -/
def itemOf (name : Text) : Parameter :=
  let provider : Annotation := .make (.string "Provider") .null
    [⟨.null, .classRef (.string "app.Items")⟩] none
  ⟨.string name, ⟨.string "app.Item", [], false, false⟩, [provider], none⟩

/-- A function with one marker. -/
def cardOf (name : Text) (arguments : List Argument) (parameters : List Parameter) : Eligible :=
  let marker : Annotation := .make (.string "Preview") .null arguments none
  let function : FunctionDecl := ⟨.string name, .string "app", .isPublic, [marker], parameters,
    none, .kotlin, true, .string "Cards.kt"⟩
  ⟨⟨.string "Cards.kt", .string "app", .kotlin, [.function function]⟩, function, [marker]⟩

theorem isLegal_cardOf {name label : Text} {value : Literal} (hname : Name.IsLegal name)
    (hlabel : Name.IsLegal label)
    (hlabels : labels ⟨[], [], none⟩ galleryConfig
      (cardOf name [⟨.string label, value⟩] [itemOf "is"]) = [.string label, .string "provider"]) :
    IsLegal ⟨[], [], none⟩ galleryConfig
      (cardOf name [⟨.string label, value⟩] [itemOf "is"]) where
  function := hname
  parameters := List.forall_mem_singleton.mpr ⟨by decide, by decide, .inl (by decide)⟩
  labels := by
    rw [hlabels]
    exact List.forall_mem_cons.mpr ⟨hlabel,
      List.forall_mem_singleton.mpr ⟨by decide, by decide, .inl (by decide)⟩⟩
  suffix := by decide

/-- A name between backticks gets a suffix, and what comes of it between backticks again. -/
theorem ticked_card_suffixed :
    let card := cardOf "`my card`" [⟨.string "name", .string "Dark"⟩] [itemOf "is"]
    IsLegal ⟨[], [], none⟩ galleryConfig card ∧
    ∃ fragment classifier' world', Ends (card.synthesize ⟨[], [], none⟩ galleryConfig)
      (.ofBase galleryConfig.preview) (.ofFiles .empty) fragment classifier' world' ∧
    ¬ ∀ name ∈ Token.identifiers (tokens .deferred ⟨[], [], none⟩ galleryConfig card),
      Name.IsWellFormed name := by
  intro card
  have hlegal : IsLegal ⟨[], [], none⟩ galleryConfig card :=
    isLegal_cardOf ⟨by decide, by decide, .inr ⟨"my card", by decide, by decide⟩⟩
      ⟨by decide, by decide, .inl (by decide)⟩ rfl
  obtain ⟨fragment, classifier', world', h⟩ := exists_ends
    (card.synthesize ⟨[], [], none⟩ galleryConfig) (.ofBase galleryConfig.preview)
    (.ofFiles .empty) (by decide +kernel)
  obtain ⟨-, hiff⟩ := identifiers_wellFormed_iff h hlegal
  refine ⟨hlegal, fragment, classifier', world', h, hiff.not.mpr fun hcard => ?_⟩
  exact absurd hcard.1 (by decide)

/-- A keyword as the label of an argument is written without backticks. -/
theorem in_unescaped :
    let card := cardOf "Card" [⟨.string "in", .other (.int 1) .null⟩] [itemOf "is"]
    IsLegal ⟨[], [], none⟩ galleryConfig card ∧
    ∃ fragment classifier' world', Ends (card.synthesize ⟨[], [], none⟩ galleryConfig)
      (.ofBase galleryConfig.preview) (.ofFiles .empty) fragment classifier' world' ∧
    fragment.template =
      .string (Token.joined (tokens .deferred ⟨[], [], none⟩ galleryConfig card)) ∧
    Text.ofString "in" ∈ Token.identifiers (tokens .deferred ⟨[], [], none⟩ galleryConfig card) ∧
    ¬ Name.IsWellFormed "in" := by
  intro card
  have hin : Name.IsLegal "in" := ⟨by decide, by decide, .inl (by decide)⟩
  have hlegal : IsLegal ⟨[], [], none⟩ galleryConfig card :=
    isLegal_cardOf ⟨by decide, by decide, .inl (by decide)⟩ hin rfl
  obtain ⟨fragment, classifier', world', h⟩ := exists_ends
    (card.synthesize ⟨[], [], none⟩ galleryConfig) (.ofBase galleryConfig.preview)
    (.ofFiles .empty) (by decide +kernel)
  obtain ⟨hfragment, -⟩ := Eligible.ends_synthesize h
  refine ⟨hlegal, fragment, classifier', world', h, ?_, by decide +kernel, ?_⟩
  · rw [eq_of_fragment? hfragment, joined_tokens]
    rfl
  · exact hin.isWellFormed_iff.not.mpr (by decide)

end Synthesis

end PreviewShots
