import PreviewShots.Label

/-!
# Walks through annotations

From a class the walk goes breadth first along annotations, to names that have
no verdict yet and each of them once, until it meets a marker, or a name that cannot
be looked up. A name waits together with the path that leads back from it to the
start.
-/

namespace PreviewShots.Marker

/-- Where a walk ended, after having seen these names, latest first. -/
inductive Outcome where
  /-- At a marker, met from the path. -/
  | reached (path seen : List Label)
  /-- Nowhere. -/
  | exhausted (seen : List Label)
  /-- At a name that cannot be looked up. -/
  | stuck (seen : List Label)

/-- What the annotations of one class lead to. -/
inductive Step where
  | marker (seen : List Label)
  | stuck (seen : List Label)
  | onward (seen : List Label) (found : List Label)

/-- The annotations of a class one after the other; `seen` lists the names met
so far in the walk, `found` the new ones without a verdict, both latest first. -/
def step (lookup : Label → Option Bool) (seen found : List Label) : List Label → Step
  | [] => .onward seen found
  | name :: names =>
    if !name.isScalar then .stuck seen
    else if Label.has seen name then step lookup seen found names
    else match lookup name with
      | some true => .marker (name :: seen)
      | some false => step lookup (name :: seen) found names
      | none => step lookup (name :: seen) (name :: found) names

def walk (edges : Label → List Label) (lookup : Label → Option Bool) :
    Nat → List (List Label) → List Label → Outcome
  | 0, _, seen => .exhausted seen
  | _ + 1, [], seen => .exhausted seen
  | fuel + 1, [] :: pending, seen => walk edges lookup fuel pending seen
  | fuel + 1, (name :: path) :: pending, seen =>
    match step lookup seen [] (edges name) with
    | .marker seen => .reached (name :: path) seen
    | .stuck seen => .stuck seen
    | .onward seen found =>
      walk edges lookup fuel (pending ++ found.reverse.map (· :: name :: path)) seen

/-- The walk from a name that has no verdict. At most `limit` other names are
ever met. -/
def walkFrom (edges : Label → List Label) (lookup : Label → Option Bool) (limit : Nat)
    (start : Label) : Outcome :=
  walk edges lookup (limit + 2) [[start]] [start]

end PreviewShots.Marker
