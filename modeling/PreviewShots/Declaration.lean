import PreviewShots.FileName
import PreviewShots.Literal.Basic
import PreviewShots.TypeRef.Basic

/-!
# Declarations

What a program under test declares: the functions and classes of its source
files, and library classes. Only first-party sources are scanned; everything
else is compiled or made by the toolchain. Names, packages and paths are labels.
-/

namespace PreviewShots

inductive Visibility where
  | isPublic | isInternal | isProtected | isPrivate | javaPackage | isLocal
  deriving DecidableEq, Repr

namespace Visibility

def all : List Visibility :=
  [.isPublic, .isInternal, .isProtected, .isPrivate, .javaPackage, .isLocal]

def name : Visibility → Text
  | .isPublic => "public"
  | .isInternal => "internal"
  | .isProtected => "protected"
  | .isPrivate => "private"
  | .javaPackage => "java_package"
  | .isLocal => "local"

def ofName? (name : Text) : Option Visibility :=
  all.find? fun v => v.name == name

end Visibility

inductive Origin where
  | kotlin | java | kotlinLibrary | javaLibrary | synthetic
  deriving DecidableEq, Repr

namespace Origin

def all : List Origin :=
  [.kotlin, .java, .kotlinLibrary, .javaLibrary, .synthetic]

def name : Origin → Text
  | .kotlin => "KOTLIN"
  | .java => "JAVA"
  | .kotlinLibrary => "KOTLIN_LIB"
  | .javaLibrary => "JAVA_LIB"
  | .synthetic => "SYNTHETIC"

def ofName? (name : Text) : Option Origin :=
  all.find? fun o => o.name == name

def isSource : Origin → Bool
  | .kotlin | .java => true
  | _ => false

end Origin

inductive ClassKind where
  | plain | interface | object | enumeration | annotationClass
  deriving DecidableEq, Repr

namespace ClassKind

def all : List ClassKind :=
  [.plain, .interface, .object, .enumeration, .annotationClass]

def name : ClassKind → Text
  | .plain => "class"
  | .interface => "interface"
  | .object => "object"
  | .enumeration => "enum_class"
  | .annotationClass => "annotation_class"

def ofName? (name : Text) : Option ClassKind :=
  all.find? fun k => k.name == name

end ClassKind

-- ---------------------------------------------------------------------------
-- Declarations
-- ---------------------------------------------------------------------------

structure Parameter where
  name : Label
  type : TypeRef
  annotations : List Annotation
  default : Option Literal

structure ClassDecl where
  qualifiedName : Label
  kind : ClassKind
  annotations : List Annotation
  parameters : List Parameter
  origin : Origin
  filePath : Label

namespace ClassDecl

/-- A library class of which only the name is known. -/
def ofName (name : Label) : ClassDecl :=
  ⟨name, .plain, [], [], .kotlinLibrary, .null⟩

def simpleName (decl : ClassDecl) : Text :=
  decl.qualifiedName.simple

/-- The parameters with a default, by name; of equal names the last one counts. -/
def defaults (decl : ClassDecl) : List (Label × Literal) :=
  Label.tableOf (decl.parameters.filterMap fun p => p.default.map (p.name, ·))

/-- Whether all parameters with a default can be found by their names. -/
def hasScalarDefaults (decl : ClassDecl) : Bool :=
  decl.parameters.all fun p => p.default.isNone || p.name.isScalar

end ClassDecl

/-- A package is a part of a name only if it is not missing. -/
def qualify (package : Label) (name : Text) : Text :=
  if package.isTruthy then package.plain ++ "." ++ name else name

/-- The text of a package; empty for none. -/
def packageName? (package : Label) : Option Text :=
  if package.isTruthy then package.text? else some []

structure FunctionDecl where
  simpleName : Label
  package : Label
  visibility : Visibility
  annotations : List Annotation
  parameters : List Parameter
  returnType : Option TypeRef
  origin : Origin
  valid : Bool
  filePath : Label

namespace FunctionDecl

/-- Without a package a function keeps its name as it is. -/
def qualifiedName (function : FunctionDecl) : Label :=
  if function.package.isTruthy then .string (qualify function.package function.simpleName.plain)
  else function.simpleName

def isPrivate (function : FunctionDecl) : Bool :=
  function.visibility == .isPrivate

def isInternal (function : FunctionDecl) : Bool :=
  function.visibility == .isInternal

end FunctionDecl

inductive Declaration where
  | function (decl : FunctionDecl)
  | ofClass (decl : ClassDecl)

namespace Declaration

def annotations : Declaration → List Annotation
  | .function decl => decl.annotations
  | .ofClass decl => decl.annotations

def qualifiedName : Declaration → Label
  | .function decl => decl.qualifiedName
  | .ofClass decl => decl.qualifiedName

def function? : Declaration → Option FunctionDecl
  | .function decl => some decl
  | .ofClass _ => none

def class? : Declaration → Option ClassDecl
  | .function _ => none
  | .ofClass decl => some decl

end Declaration

-- ---------------------------------------------------------------------------
-- Source files
-- ---------------------------------------------------------------------------

structure SourceFile where
  path : Label
  package : Label
  origin : Origin
  declarations : List Declaration

namespace SourceFile

def fileName (file : SourceFile) : Text :=
  FileName.ofPath file.path.plain

def functions (file : SourceFile) : List FunctionDecl :=
  file.declarations.filterMap (·.function?)

def classes (file : SourceFile) : List ClassDecl :=
  file.declarations.filterMap (·.class?)

end SourceFile

end PreviewShots
