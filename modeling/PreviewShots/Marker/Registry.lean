import PreviewShots.Label

/-!
# The registry of markers

Verdicts on annotation classes by full name. A verdict is recorded once, as it is
given; promotion is the one way to change it. Promoting a name that was held to be
no marker drops all negative verdicts, since they may rest on the old one. A verdict
of null settles nothing.
-/

namespace PreviewShots

structure MarkerRegistry where
  base : Label
  verdicts : List (Label × Json)

namespace MarkerRegistry

def ofBase (base : Label) : MarkerRegistry := ⟨base, [(base, .bool true)]⟩

/-- Anything but null settles a name. -/
def isSettled : Json → Bool
  | .null => false
  | _ => true

/-- A verdict that promotion may drop. -/
def isNegative : Json → Bool
  | .bool false => true
  | _ => false

/-- The verdict as it was given. -/
def recorded? (registry : MarkerRegistry) (name : Label) : Option Json :=
  (Label.find? name registry.verdicts).filter isSettled

/-- Whether the name is held to be a marker, if that is settled. -/
def lookup (registry : MarkerRegistry) (name : Label) : Option Bool :=
  (registry.recorded? name).map (·.isTruthy)

/-- Records a verdict unless there is one. -/
def record (registry : MarkerRegistry) (name : Label) (verdict : Json) : MarkerRegistry :=
  match registry.recorded? name with
  | some _ => registry
  | none => { registry with verdicts := Label.put name verdict registry.verdicts }

/-- Records that the name is a marker, or that it is none. -/
def mark (registry : MarkerRegistry) (name : Label) (verdict : Bool) : MarkerRegistry :=
  registry.record name (.bool verdict)

def markAll (registry : MarkerRegistry) (names : List Label) (verdict : Bool) : MarkerRegistry :=
  names.foldl (fun registry name => registry.mark name verdict) registry

/-- The registry in which the name is a marker. -/
def promote (registry : MarkerRegistry) (name : Label) : MarkerRegistry :=
  let promoted := Label.put name (.bool true) registry.verdicts
  match registry.recorded? name with
  | some verdict =>
    if verdict.isTruthy then registry
    else if isNegative verdict then
      { registry with verdicts := promoted.filter fun row => !isNegative row.2 }
    else { registry with verdicts := promoted }
  | none => { registry with verdicts := promoted }

/-- Whether promoting the name changes anything. -/
def isPromotable (registry : MarkerRegistry) (name : Label) : Bool :=
  registry.lookup name != some true

def markers (registry : MarkerRegistry) : List Label :=
  (registry.verdicts.filter (·.2.isTruthy)).map (·.1)

/-- Whether there is a verdict, be it null. -/
def contains (registry : MarkerRegistry) (name : Label) : Bool :=
  (Label.find? name registry.verdicts).isSome

def size (registry : MarkerRegistry) : Nat :=
  registry.verdicts.length

theorem recorded?_record (registry : MarkerRegistry) (name other : Label) (verdict : Json)
    (h : isSettled verdict) : (registry.record name verdict).recorded? other =
      if other.key = name.key then some ((registry.recorded? name).getD verdict)
      else registry.recorded? other := by
  rcases hn : registry.recorded? name with _ | v
  · simp only [record, hn, Option.getD_none]
    simp only [recorded?, Label.find?_put]
    split <;> simp [h]
  · by_cases ho : other.key = name.key
    · have : registry.recorded? other = registry.recorded? name := by
        simp [recorded?, Label.find?, ho]
      simp [record, hn, ho, this]
    · simp [record, hn, ho]

theorem lookup_mark (registry : MarkerRegistry) (name other : Label) (verdict : Bool) :
    (registry.mark name verdict).lookup other =
      if other.key = name.key then some ((registry.lookup name).getD verdict)
      else registry.lookup other := by
  simp only [mark, lookup, recorded?_record registry name other (.bool verdict) rfl]
  split
  · cases registry.recorded? name <;> simp [Json.isTruthy]
  · rfl

end MarkerRegistry

end PreviewShots
