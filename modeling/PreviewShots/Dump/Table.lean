import PreviewShots.Dump.Declaration
import PreviewShots.SymbolTable

/-!
# The table of a dump
-/

namespace PreviewShots.Dump

/-- The new paths are looked up, so they have to be scalars. -/
def newPaths (entry : Option Json) : Except Fault (Option (List Label)) :=
  match entry with
  | none | some .null => .ok none
  | some value => do
    let paths : List Label ← elements (some value)
    if paths.all (·.isScalar) then return some paths else throw .illTyped

/-- Whether all classes can be found by their names. -/
def canFind (files : List SourceFile) (libraryClasses : List ClassDecl) : Bool :=
  (libraryClasses ++ files.flatMap (·.classes)).all fun decl => !decl.qualifiedName.isCompound

def libraryClass (entry : Json) : Except Fault ClassDecl := do
  classDecl .null .null .kotlinLibrary (← members entry)

def table (dump : Json) : Except Fault SymbolTable :=
  match dump with
  | .object ms => do
    let files ← (← elements (getMember? "files" ms)).mapM sourceFile
    let libraryClasses ← (← elements (getMember? "classes" ms)).mapM libraryClass
    if !canFind files libraryClasses then throw .illTyped
    return ⟨files, libraryClasses, ← newPaths (getMember? "newFiles" ms)⟩
  | value => .error (.dump (.rootKind value.kind))

end PreviewShots.Dump
