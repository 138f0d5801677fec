import PreviewShots.Declaration
import PreviewShots.Dump.Literal
import PreviewShots.Dump.Type
import PreviewShots.Text.Lowercase

/-!
# Declarations in a dump

A declaration whose kind is `function`, or that has no kind, is a function; any
other is a class. A file that names no origin is a Java file by its extension
and a Kotlin file otherwise.
-/

namespace PreviewShots.Dump

/-- The capital of an ASCII letter; two letters outside ASCII have an ASCII capital too. -/
def capital (c : CodePoint) : CodePoint :=
  if c = '\u0131' then 'I'
  else if c = '\u017f' then 'S'
  else (c.char?.map fun c => CodePoint.char c.toUpper).getD c

def originOfText (path text : Text) : Except Fault Origin :=
  match Origin.ofName? (text.map capital) with
  | some origin => .ok origin
  | none => .error (.dump (.unknownOrigin text path))

def endsIn (ending text : Text) : Bool :=
  ending.reverse.isPrefixOf text.reverse

def originOfPath (path : Text) : Origin :=
  if endsIn ".java" (Text.lower path) then .java else .kotlin

/-- The origin an entry names, or else that of the file it stands in. -/
def originIn (path : Label) (fileOrigin : Origin) (ms : List Member) : Except Fault Origin := do
  match ← truthyText? (getMember? "origin" ms) with
  | some text => originOfText path.plain text
  | none => return fileOrigin

/-- The origin a file names, or else that of its path, which then has to be a text. -/
def fileOrigin (path : Label) (ms : List Member) : Except Fault Origin := do
  match ← truthyText? (getMember? "origin" ms), path.text? with
  | some text, _ => originOfText path.plain text
  | none, some path => return originOfPath path
  | none, none => throw .illTyped

def visibility (entry : Option Json) : Except Fault Visibility := do
  match ← text? entry with
  | none => return .isPublic
  | some text =>
    match Visibility.ofName? (Text.lower text) with
    | some v => return v
    | none => throw (.dump (.unknownVisibility text))

def annotations (ms : List Member) : Except Fault (List Annotation) := do
  (← elements (getMember? "annotations" ms)).mapM annotationOf

def optionalType (entry : Option Json) : Except Fault (Option TypeRef) :=
  match entry with
  | some value => type value
  | none => .ok none

def parameter (entry : Json) : Except Fault Parameter := do
  let ms ← members entry
  let name := label "name" ms
  if !name.isTruthy then throw (.dump (.parameterWithoutName entry))
  let type ← optionalType (getMember? "type" ms)
  let annotations ← annotations ms
  let default ← (getMember? "default" ms).mapM literal
  return ⟨name, type.getD .unknown, annotations, default⟩

def parameters (ms : List Member) : Except Fault (List Parameter) := do
  (← elements (getMember? "parameters" ms)).mapM parameter

def function (package path : Label) (fileOrigin : Origin) (ms : List Member) :
    Except Fault FunctionDecl := do
  let name := label "name" ms
  if !name.isTruthy then throw (.dump (.functionWithoutName path.plain))
  let origin ← originIn path fileOrigin ms
  let visibility ← visibility (getMember? "visibility" ms)
  let annotations ← annotations ms
  let parameters ← parameters ms
  let returnType ← optionalType (getMember? "returnType" ms)
  return {
    simpleName := name, package, visibility, annotations, parameters, returnType, origin,
    valid := flag true (getMember? "valid" ms), filePath := path }

/-- The full name of a class is given, or made of the package and its name. -/
def className (package : Label) (ms : List Member) : Label :=
  let given := label "qualifiedName" ms
  let name := label "name" ms
  if given.isTruthy || !name.isTruthy then given
  else if package.isTruthy then .string (qualify package name.plain)
  else name

def classKind (entry : Option Json) : Except Fault ClassKind :=
  match entry with
  | none => .ok .plain
  | some (.string text) => match ClassKind.ofName? text with
    | some kind => .ok kind
    | none => .error (.dump (.unknownKind (.string text)))
  | some value => .error (.dump (.unknownKind value))

def classDecl (package path : Label) (origin : Origin) (ms : List Member) :
    Except Fault ClassDecl := do
  let qualifiedName := className package ms
  let kind ← classKind (getMember? "kind" ms)
  let annotations ← annotations ms
  let parameters ← parameters ms
  return { qualifiedName, kind, annotations, parameters, origin, filePath := path }

def isFunction (ms : List Member) : Bool :=
  match getMember? "kind" ms with
  | none => true
  | some (.string kind) => kind = "function"
  | some _ => false

def declaration (package path : Label) (origin : Origin) (entry : Json) :
    Except Fault Declaration := do
  let ms ← members entry
  if isFunction ms then return .function (← function package path origin ms)
  else return .ofClass (← classDecl package path origin ms)

def sourceFile (entry : Json) : Except Fault SourceFile := do
  let ms ← members entry
  let path := label "path" ms
  if !path.isTruthy then throw (.dump .fileWithoutPath)
  let package := (getMember? "package" ms).getD (.string "")
  let origin ← fileOrigin path ms
  let entries ← elements (getMember? "declarations" ms)
  return ⟨path, package, origin, ← entries.mapM (declaration package path origin)⟩

end PreviewShots.Dump
