import PreviewShots.Declaration

/-!
# Symbol tables

All declarations known to one round: the source files, the classes by their full
names, and the paths that are new. Where a name has several classes the last one
counts, and a class of a source file hides a library class.
-/

namespace PreviewShots

structure SymbolTable where
  files : List SourceFile
  libraryClasses : List ClassDecl
  newPaths : Option (List Label)

namespace SymbolTable

/-- All classes with a name, library classes first. -/
def allClasses (table : SymbolTable) : List ClassDecl :=
  (table.libraryClasses ++ table.files.flatMap (·.classes)).filter (·.qualifiedName.isTruthy)

def class? (table : SymbolTable) (name : Label) : Option ClassDecl :=
  table.allClasses.reverse.find? fun decl => decl.qualifiedName.key = name.key

/-- The names under which classes are found. -/
def classNames (table : SymbolTable) : List Label :=
  Label.distinct (table.allClasses.map (·.qualifiedName))

def functionCount (table : SymbolTable) : Nat :=
  (table.files.flatMap (·.functions)).length

/-- Every file is new unless the new paths are given. Then the paths of all files
are looked up, if they can be. -/
def newFiles? (table : SymbolTable) : Option (List SourceFile) :=
  match table.newPaths with
  | none => some table.files
  | some paths =>
    if table.files.all (·.path.isScalar) then some (table.files.filter fun file => Label.has paths file.path)
    else none

end SymbolTable

end PreviewShots
