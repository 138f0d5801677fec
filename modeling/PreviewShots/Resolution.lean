import PreviewShots.Search
import PreviewShots.SymbolTable

/-!
# Resolution of names

Every name that is not missing resolves: to the class of the table, or else to a
library class of which nothing more is known. A type resolves when each of its
parts has a name and is not an error; star arguments are passed over.
-/

namespace PreviewShots.SymbolTable

/-- The class a name resolves to. A name that cannot be looked up has none. -/
def resolveName (table : SymbolTable) (name : Label) : Option ClassDecl :=
  if name.isTruthy && name.isScalar then some ((table.class? name).getD (.ofName name)) else none

def lookUp (table : SymbolTable) (name : Label) : Search (Option ClassDecl) :=
  if name.isCompound then .stuck
  else ⟨if name.isTruthy then [name] else [], some (table.resolveName name)⟩

-- ---------------------------------------------------------------------------
-- Library classes
-- ---------------------------------------------------------------------------

/-- The names that stand for library classes, each as it was looked up first. -/
def noted (table : SymbolTable) (stubs : List Label) (names : List Label) : List Label :=
  names.foldl (fun stubs name =>
    if (table.class? name).isSome || Label.has stubs name then stubs else stubs ++ [name]) stubs

/-- The full name of the class a name resolves to. -/
def called (table : SymbolTable) (stubs : List Label) (name : Label) : Label :=
  match table.class? name with
  | some decl => decl.qualifiedName
  | none => (stubs.find? fun stub => stub.key = name.key).getD name

-- ---------------------------------------------------------------------------
-- Types
-- ---------------------------------------------------------------------------

def lookUpType (table : SymbolTable) (type : TypeRef) : Search (Option ClassDecl) :=
  if type.isError then return none else table.lookUp type.name

mutual
/-- Whether a type resolves; its parts are looked up from the outside and from the
last argument to the first. -/
def typeResolves (table : SymbolTable) : TypeRef → Search Bool
  | ⟨name, arguments, nullable, isError⟩ => do
    match ← table.lookUpType ⟨name, arguments, nullable, isError⟩ with
    | some _ => argumentsResolve table arguments
    | none => return false
def argumentsResolve (table : SymbolTable) : List TypeArgument → Search Bool
  | [] => return true
  | .star :: rest => argumentsResolve table rest
  | .projected _ none :: rest => do
    let _ ← argumentsResolve table rest
    return false
  | .projected _ (some type) :: rest => do
    if ← argumentsResolve table rest then typeResolves table type else return false
end

/-- A function is sound when it is not flagged invalid and its types resolve. -/
def validates (table : SymbolTable) (function : FunctionDecl) : Search Bool :=
  if function.valid then
    Search.all table.typeResolves (function.parameters.map (·.type) ++ function.returnType.toList)
  else return false

-- ---------------------------------------------------------------------------
-- Annotations
-- ---------------------------------------------------------------------------

/-- Whether an annotation resolves to the class of that full name. -/
def isNamed (table : SymbolTable) (name : Label) (a : Annotation) : Search Bool := do
  return (← table.lookUp a.typeName).any (·.qualifiedName.equal name)

/-- Whether one of the annotations does. -/
def carries (table : SymbolTable) (name : Label) (annotations : List Annotation) : Search Bool := do
  return (← Search.find? (table.isNamed name) annotations).isSome

/-- The declarations of the source files that carry the annotation themselves. -/
def annotatedWith (table : SymbolTable) (name : Label) : Search (List Declaration) :=
  Search.filter (fun decl => table.carries name decl.annotations)
    (table.files.flatMap (·.declarations))

/-- The defaults an annotation brings along, or else those of its class. -/
def defaultsOf (table : SymbolTable) (a : Annotation) : List (Label × Literal) :=
  match a.defaults with
  | some arguments =>
    Label.tableOf ((arguments.filter (·.name.isTruthy)).map fun argument => (argument.name, argument.value))
  | none => match table.resolveName a.typeName with
    | some decl => decl.defaults
    | none => []

/-- Whether the defaults of an annotation can be found by their names. -/
def hasDefaults (table : SymbolTable) (a : Annotation) : Bool :=
  match a.defaults with
  | some arguments => arguments.all fun argument => !argument.name.isCompound
  | none => (table.resolveName a.typeName).all (·.hasScalarDefaults)

end PreviewShots.SymbolTable
