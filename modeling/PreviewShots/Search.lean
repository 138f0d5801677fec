import PreviewShots.Label

/-!
# Searches

A search looks up names one after the other and finds something, unless it meets a
name that cannot be looked up. There it ends.
-/

namespace PreviewShots

structure Search (α : Type) where
  /-- The names that are looked up, in order. -/
  names : List Label
  found? : Option α

namespace Search

/-- A name that cannot be looked up. -/
def stuck {α : Type} : Search α := ⟨[], none⟩

instance : Monad Search where
  pure a := ⟨[], some a⟩
  bind search next := match search.found? with
    | some a => ⟨search.names ++ (next a).names, (next a).found?⟩
    | none => ⟨search.names, none⟩

/-- Whether the test holds of all; it is asked up to the first one of which it does not. -/
def all {α : Type} (test : α → Search Bool) : List α → Search Bool
  | [] => return true
  | a :: rest => do if ← test a then all test rest else return false

/-- The first one of which the test holds. -/
def find? {α : Type} (test : α → Search Bool) : List α → Search (Option α)
  | [] => return none
  | a :: rest => do if ← test a then return some a else find? test rest

def filter {α : Type} (test : α → Search Bool) : List α → Search (List α)
  | [] => return []
  | a :: rest => do
    let kept ← test a
    let later ← filter test rest
    return if kept then a :: later else later

end Search

end PreviewShots
