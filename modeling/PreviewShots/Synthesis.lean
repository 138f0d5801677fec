import PreviewShots.Fragment
import PreviewShots.Literal.Equality
import PreviewShots.Literal.Source
import PreviewShots.Name.Implicit
import PreviewShots.Name.Sorted
import PreviewShots.Notice
import PreviewShots.Selection

/-!
# Synthesis

From an eligible function to the text of its test. The test carries the markers
of the function, without the arguments that only repeat a default, and the two
fixed annotations. The first parameter with a provider is forwarded. The text can
be written in any spelling; a fragment keeps it with the names left open.
-/

namespace PreviewShots

/-- Names are left open. -/
def Spelling.deferred : Spelling := fun name => Template.placeholder name.plain

namespace Synthesis

-- ---------------------------------------------------------------------------
-- Annotations
-- ---------------------------------------------------------------------------

/-- The default of the name of an argument; an argument without a name has none. -/
def default? (table : SymbolTable) (a : Annotation) (argument : Argument) : Option Literal :=
  if argument.name.key = .null then none else Label.find? argument.name (table.defaultsOf a)

/-- An argument is dropped when the default of its name equals it. -/
def isDefault (table : SymbolTable) (a : Annotation) (argument : Argument) : Bool :=
  (default? table a argument).any argument.value.equal

def keptArguments (table : SymbolTable) (a : Annotation) : List Argument :=
  a.arguments.filter fun argument => !isDefault table a argument

/-- Whether the arguments can be compared with the defaults of the annotation. -/
def isReducible (table : SymbolTable) (a : Annotation) : Bool :=
  table.hasDefaults a && a.arguments.all fun argument =>
    argument.name.isScalar &&
      (default? table a argument).all fun value => (argument.value.equal? value).isSome

/-- The type name an annotation is written with; none if only its short name is known. -/
def typeName? (table : SymbolTable) (a : Annotation) : Option Label :=
  (table.resolveName a.typeName).map (·.qualifiedName)

/-- An annotation with its mark and the given arguments. -/
def written (spelling : Spelling) (table : SymbolTable) (a : Annotation)
    (arguments : List Argument) : Text :=
  let name : Text := match typeName? table a with
    | some n => spelling n
    | none => a.shortName.plain
  let applied : Text := if arguments.isEmpty then ""
    else "(" ++ Text.joinWith ", " (arguments.map (·.source spelling)) ++ ")"
  "@" ++ name ++ applied

def writtenNames (table : SymbolTable) (a : Annotation) (arguments : List Argument) :
    List Label :=
  (typeName? table a).toList ++ arguments.flatMap (·.value.names)

/-- Whether an annotation can be written: its type can be looked up, and the
arguments can be. -/
def isWritable (a : Annotation) (arguments : List Argument) : Bool :=
  !a.typeName.isCompound && Argument.areWritable arguments

def fixed (spelling : Spelling) (name : Label) : Text :=
  "@" ++ spelling name

def fixedNames (config : Config) : List Label :=
  [config.previewTest, config.composable]

def annotations (spelling : Spelling) (table : SymbolTable) (config : Config)
    (markers : List Annotation) : List Text :=
  markers.map (fun a => written spelling table a (keptArguments table a)) ++
    (fixedNames config).map (fixed spelling)

def annotationNames (table : SymbolTable) (config : Config) (markers : List Annotation) :
    List Label :=
  markers.flatMap (fun a => writtenNames table a (keptArguments table a)) ++ fixedNames config

/-- Whether the annotations of a test can be written. -/
def areWritable (table : SymbolTable) (config : Config) (markers : List Annotation) : Bool :=
  markers.all (fun a => isReducible table a && isWritable a (keptArguments table a)) &&
    (fixedNames config).all (·.isScalar)

-- ---------------------------------------------------------------------------
-- The provider
-- ---------------------------------------------------------------------------

def providerName : Text := "provider"

/-- The provider is named, whether or not it was written by position. -/
def providerArguments : List Argument → List Argument
  | ⟨.null, value⟩ :: _ => [⟨.string providerName, value⟩]
  | arguments => (arguments.find? fun a => a.name.text? = some providerName).toList

/-- An annotation whose type is not known counts by its short name. -/
def isProvider (table : SymbolTable) (config : Config) (a : Annotation) : Search Bool := do
  match ← table.lookUp a.typeName with
  | some decl => return decl.qualifiedName.equal config.previewParameter
  | none =>
    if config.previewParameter.isName then
      return a.shortName.equal (.string config.previewParameter.simple)
    else .stuck

structure Provider where
  index : Nat
  parameter : Parameter
  mark : Annotation

/-- The parameters with a provider, in order; `index` is that of the first one. -/
def providersFrom (table : SymbolTable) (config : Config) (index : Nat) :
    List Parameter → Search (List Provider)
  | [] => return []
  | parameter :: rest => do
    let mark ← Search.find? (isProvider table config) parameter.annotations
    let later ← providersFrom table config (index + 1) rest
    return (mark.map (⟨index, parameter, ·⟩)).toList ++ later

def providers (table : SymbolTable) (config : Config) (function : FunctionDecl) :
    Search (List Provider) :=
  providersFrom table config 0 function.parameters

/-- The provider that is forwarded. -/
def provider? (table : SymbolTable) (config : Config) (function : FunctionDecl) : Option Provider :=
  (providers table config function).found?.bind (·.head?)

/-- A parameter as the test declares it. -/
def declared (spelling : Spelling) (table : SymbolTable) (provider : Provider) : Text :=
  written spelling table provider.mark (providerArguments provider.mark.arguments) ++ " " ++
    Name.escape provider.parameter.name.plain ++ ": " ++ provider.parameter.type.source spelling

def declaredNames (table : SymbolTable) (provider : Provider) : List Label :=
  writtenNames table provider.mark (providerArguments provider.mark.arguments) ++
    provider.parameter.type.names

/-- Whether a parameter can be declared: the name of a parameter has to be a text. -/
def isDeclarable (provider : Provider) : Bool :=
  isWritable provider.mark (providerArguments provider.mark.arguments) &&
    provider.parameter.type.names.all (!·.isCompound) && provider.parameter.name.text?.isSome

/-- A parameter as the test passes it on, by position only in the first place. -/
def passed (provider : Provider) : Text :=
  let name := Name.escape provider.parameter.name.plain
  if provider.index = 0 then name else name ++ " = " ++ name

def signature (spelling : Spelling) (table : SymbolTable) (provider : Option Provider) : Text :=
  (provider.map (declared spelling table)).getD []

def call (provider : Option Provider) : Text :=
  (provider.map passed).getD []

-- ---------------------------------------------------------------------------
-- The test
-- ---------------------------------------------------------------------------

def indent : Text := "    "

def testName (config : Config) (function : FunctionDecl) : Text :=
  function.simpleName.plain ++ config.suffix

def modifier (function : FunctionDecl) : Text :=
  if function.isInternal then "internal " else ""

def body (config : Config) (function : FunctionDecl) (signature call : Text) : List Text :=
  [ modifier function ++ "fun " ++ Name.escape (testName config function) ++
      "(" ++ signature ++ ") \x7b",
    indent ++ Name.escape function.simpleName.plain ++ "(" ++ call ++ ")",
    "\x7d" ]

/-- The text of the test in the given spelling. -/
def text (spelling : Spelling) (table : SymbolTable) (config : Config) (eligible : Eligible) : Text :=
  let provider := provider? table config eligible.function
  Text.joinWith "\n" (annotations spelling table config eligible.markers ++
    body config eligible.function (signature spelling table provider) (call provider))

/-- The names written through the spelling. -/
def names (table : SymbolTable) (config : Config) (eligible : Eligible) : List Label :=
  let provider := provider? table config eligible.function
  annotationNames table config eligible.markers ++
    (provider.map (declaredNames table)).getD []

-- ---------------------------------------------------------------------------
-- Notices and faults
-- ---------------------------------------------------------------------------

/-- The names of the parameters whose provider is not used. -/
def ignored (providers : List Provider) : List Label :=
  providers.tail.map (·.parameter.name)

def ignoredNotices (function : FunctionDecl) (providers : List Provider) : List Notice :=
  if providers.tail.isEmpty then []
  else [.providersIgnored function.qualifiedName.plain ((ignored providers).map (·.plain))]

def forwardNotices (function : FunctionDecl) (providers : List Provider) : List Notice :=
  let forwarded := providers.head?.map (·.index)
  (function.parameters.zipIdx.filter fun (parameter, index) =>
    forwarded != some index && parameter.default.isNone).map fun (parameter, _) =>
      .notForwarded function.qualifiedName.plain parameter.name.plain

/-- A fragment refers to these names, and imports those that need it. -/
def fragment (table : SymbolTable) (config : Config) (eligible : Eligible) (names : List Text) :
    Fragment where
  functionName := .string (testName config eligible.function)
  package := eligible.function.package
  template := .string (text .deferred table config eligible)
  requiredImports := (Name.sorted (names.filter fun n => !Name.isImplicit n)).map .string
  signature := .string (signature .deferred table (provider? table config eligible.function))
  referencedNames := (Name.sorted names).map .string

/-- The fragment of a function that has a text for its name, and refers to texts
only. -/
def fragment? (table : SymbolTable) (config : Config) (eligible : Eligible) : Option Fragment :=
  if eligible.function.simpleName.text?.isNone then none
  else (Label.texts? (names table config eligible)).map (fragment table config eligible)

end Synthesis

open Synthesis in
/-- The test of an eligible function, with notices on the way to it. What has no text
where one is needed stops the synthesis. -/
def Eligible.synthesize {m : Type → Type} [Monad m] [Host m] (table : SymbolTable) (config : Config)
    (eligible : Eligible) : Task m Classifier Fragment := do
  let function := eligible.function
  Task.expect (areWritable table config eligible.markers)
  let providers ← Classifier.search table (providers table config function)
  Task.expect (Label.texts? (ignored providers)).isSome
  Task.notifyAll (ignoredNotices function providers)
  Task.expect (providers.head?.all isDeclarable)
  Task.notifyAll (forwardNotices function providers)
  Task.ofOption (fragment? table config eligible)

end PreviewShots
