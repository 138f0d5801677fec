import PreviewShots.Text.Segment
import PreviewShots.Text.Utf8

/-!
# Paths

A path is a root and its parts. Empty parts and single dots are dropped when a
path is read, double dots are kept: what they lead to depends on the files.
-/

namespace PreviewShots

structure Path where
  root : Text
  parts : List Text
  deriving DecidableEq, Repr

namespace Path

/-- Two slashes at the start are a root of their own; more count as one. -/
def rootOf (text : Text) : Text :=
  match (text.takeWhile (· = CodePoint.char '/')).length with
  | 0 => ""
  | 2 => "//"
  | _ => "/"

def isPart (part : Text) : Bool :=
  !part.isEmpty && part ≠ "."

def parse (text : Text) : Path :=
  ⟨rootOf text, (Text.splitOn (.char '/') text).filter isPart⟩

def here : Path := ⟨[], []⟩

def toText (path : Path) : Text :=
  if path.root.isEmpty && path.parts.isEmpty then "."
  else path.root ++ Text.joinWith "/" path.parts

def isAbsolute (path : Path) : Bool :=
  !path.root.isEmpty

/-- A path within another one; an absolute path stands for itself. -/
def join (base path : Path) : Path :=
  if path.isAbsolute then path else ⟨base.root, base.parts ++ path.parts⟩

def parent (path : Path) : Path :=
  ⟨path.root, path.parts.dropLast⟩

def name (path : Path) : Text :=
  path.parts.getLast?.getD []

/-- The length of the text of a path in bytes. -/
def byteSize (path : Path) : Nat :=
  path.toText.byteSize

/-- A text that ends in a part of its own, so that it may name a file. -/
def namesFile (text : Text) : Bool :=
  let last := Text.afterLast (.char '/') text
  isPart last && last ≠ ".."

end Path

end PreviewShots
