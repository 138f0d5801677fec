import PreviewShots.Host
import PreviewShots.Marker.Registry
import PreviewShots.Marker.Walk
import PreviewShots.Resolution

/-!
# Markers

An annotation class is a marker when it is the base marker, or when it carries a
marker itself. Verdicts are kept: a walk that meets a marker settles the path it
came by, one that meets none settles every name it saw.
-/

namespace PreviewShots

/-- The verdicts, and the names that stand for library classes in the table at hand. -/
structure Classifier where
  registry : MarkerRegistry
  stubs : List Label

namespace Classifier

def ofBase (base : Label) : Classifier := ⟨.ofBase base, []⟩

def note (table : SymbolTable) (names : List Label) (classifier : Classifier) : Classifier :=
  { classifier with stubs := table.noted classifier.stubs names }

/-- A verdict on the classes that the names resolve to. -/
def settle (table : SymbolTable) (names : List Label) (verdict : Bool) (classifier : Classifier) :
    Classifier :=
  { classifier with
    registry := classifier.registry.markAll (names.map (table.called classifier.stubs)) verdict }

variable {m : Type → Type} [Monad m] {α : Type}

/-- What a search finds. A name that cannot be looked up stops the task. -/
def search (table : SymbolTable) (search : Search α) : Task m Classifier α := do
  modify (note table search.names)
  Task.ofOption search.found?

end Classifier

namespace Marker

/-- The names of the annotations of a class. -/
def edges (table : SymbolTable) (name : Label) : List Label :=
  match table.class? name with
  | some decl => (decl.annotations.map (·.typeName)).filter (·.isTruthy)
  | none => []

/-- Every annotation of a class in the table counts once. -/
def edgeCount (table : SymbolTable) : Nat :=
  (table.allClasses.flatMap (·.annotations)).length

variable {m : Type → Type} [Monad m]

/-- Keeps what a walk showed; whether it met a marker. -/
def conclude (table : SymbolTable) : Outcome → Task m Classifier Bool
  | .reached path seen => do
    modify fun c => (c.note table seen.reverse).settle table path true
    return true
  | .exhausted seen => do
    modify fun c => (c.note table seen.reverse).settle table seen.reverse false
    return false
  | .stuck seen => do
    modify (·.note table seen.reverse)
    throw .illTyped

/-- Whether the class that a name resolves to is a marker. -/
def classify (table : SymbolTable) (name : Label) : Task m Classifier Bool := do
  match ← Classifier.search table (table.lookUp name) with
  | none => return false
  | some _ =>
    let registry := (← get).registry
    match registry.lookup name with
    | some verdict => return verdict
    | none => conclude table (walkFrom (edges table) registry.lookup (edgeCount table) name)

/-- The annotations that are markers, in order. -/
def matching (table : SymbolTable) : List Annotation → Task m Classifier (List Annotation)
  | [] => return []
  | a :: rest => do
    let isMarker ← classify table a.typeName
    let markers ← matching table rest
    return if isMarker then a :: markers else markers

/-- Promotes each of the names, and counts those that were no markers before. -/
def promoteAll (registry : MarkerRegistry) : List Label → MarkerRegistry × Nat
  | [] => (registry, 0)
  | name :: names =>
    let (after, count) := promoteAll (registry.promote name) names
    (after, if registry.isPromotable name then count + 1 else count)

/-- The full names of the classes among the declarations. -/
def classNames (declarations : List Declaration) : List Label :=
  (declarations.filterMap fun decl => decl.class?.map (·.qualifiedName)).filter (·.isTruthy)

/-- Makes every source class that carries the base marker a marker; how many of them
were none before. -/
def seed (table : SymbolTable) : Task m Classifier Nat := do
  let declarations ← Classifier.search table (table.annotatedWith (← get).registry.base)
  let (registry, count) := promoteAll (← get).registry (classNames declarations)
  modify fun c => { c with registry }
  return count

end Marker

end PreviewShots
