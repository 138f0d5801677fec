import PreviewShots.Json.Agreement
import PreviewShots.Json.Display
import PreviewShots.Name.Clash
import PreviewShots.Name.Sorted

/-!
# Labels

What a dump has in the place of a text. As a rule that is a text or null, but any
value can stand there and is kept as it is. A label that is not truthy counts as
missing. Labels are told apart by their keys: numbers of equal value have one key,
and a list or an object has none and cannot be looked up.
-/

namespace PreviewShots

abbrev Label := Json

/-- What a label is found by. -/
inductive Key where
  | null
  | text (text : Text)
  | number (quantity : Json.Quantity)
  /-- The key of nothing that can be looked up. -/
  | compound
  deriving DecidableEq

namespace Label

def text? : Label → Option Text
  | .string text => some text
  | _ => none

/-- Neither a list nor an object: only these can be looked up. -/
def isScalar : Label → Bool
  | .array _ | .object _ => false
  | _ => true

/-- Missing or a text. -/
def isName (label : Label) : Bool :=
  !label.isTruthy || label.text?.isSome

/-- A list or an object that is not missing: it cannot be looked up. -/
def isCompound (label : Label) : Bool :=
  label.isTruthy && !label.isScalar

def key (label : Label) : Key :=
  match label with
  | .null => .null
  | .string text => .text text
  | label => match label.quantity? with
    | some quantity => .number quantity
    | none => .compound

/-- The text of a name; a missing one has none. -/
def nameText (label : Label) : Text :=
  label.text?.getD []

/-- The text of a label, if it is not missing. -/
def given? (label : Label) : Option Text :=
  label.text?.filter (!·.isEmpty)

/-- The simple name of a text; a missing label has an empty one. -/
def simple (label : Label) : Text :=
  if label.isTruthy then Name.simple label.plain else []

/-- The texts, if all of the labels are texts. -/
def texts? : List Label → Option (List Text)
  | [] => some []
  | .string text :: labels => (texts? labels).map (text :: ·)
  | _ :: _ => none

-- ---------------------------------------------------------------------------
-- Tables by label
-- ---------------------------------------------------------------------------

section

variable {α : Type}

/-- What stands in the table under the key of the label. -/
def find? (label : Label) (table : List (Label × α)) : Option α :=
  (table.find? fun row => row.1.key = label.key).map (·.2)

/-- The table with the value under the label. A row of that key keeps its place and
its label. -/
def put (label : Label) (value : α) : List (Label × α) → List (Label × α)
  | [] => [(label, value)]
  | row :: rest =>
    if row.1.key = label.key then (row.1, value) :: rest else row :: put label value rest

def tableOf (rows : List (Label × α)) : List (Label × α) :=
  rows.foldl (fun table row => put row.1 row.2 table) []

theorem find?_put (label other : Label) (value : α) (table : List (Label × α)) :
    find? other (put label value table) =
      if other.key = label.key then some value else find? other table := by
  induction table with
  | nil =>
    by_cases h : other.key = label.key
    · simp [find?, put, h]
    · simp [find?, put, h, Ne.symm h]
  | cons row rest ih =>
    by_cases hr : row.1.key = label.key
    · by_cases h : other.key = label.key
      · simp [find?, put, hr, h]
      · simp [find?, put, hr, h, Ne.symm h]
    · by_cases h : row.1.key = other.key
      · have : other.key ≠ label.key := h ▸ hr
        simp [find?, put, h, this]
      · simpa [find?, put, hr, h] using ih

end

-- ---------------------------------------------------------------------------
-- Sets of labels
-- ---------------------------------------------------------------------------

def has (labels : List Label) (label : Label) : Bool :=
  labels.any (·.key = label.key)

/-- The labels without those that have the key of an earlier one. -/
def distinct (labels : List Label) : List Label :=
  labels.foldl (fun kept label => if has kept label then kept else kept ++ [label]) []

/-- The labels that have the simple name of another one and not its key. -/
def clashing (labels : List Label) : List Label :=
  labels.filter fun label => labels.any fun other => label.key ≠ other.key ∧ label.simple = other.simple

/-- Labels in ascending order, if they have one: they are texts, or numbers. A
label that stands alone needs no order. -/
def sorted? (labels : List Label) : Option (List Label) :=
  if !labels.all isScalar then none
  else match distinct labels with
    | [label] => some [label]
    | several => match texts? several with
      | some texts => some ((Name.sorted texts).map .string)
      | none => if several.all (·.quantity?.isSome) then some (sortedNumbers several) else none
where
  insertNumber (label : Label) : List Label → List Label
    | [] => [label]
    | other :: rest =>
      if label.isLess other then label :: other :: rest else other :: insertNumber label rest
  sortedNumbers (labels : List Label) : List Label :=
    labels.foldr insertNumber []

@[simp] theorem nameText_string (text : Text) : nameText (.string text) = text := rfl

theorem texts?_map_string (texts : List Text) : texts? (texts.map .string) = some texts := by
  induction texts with
  | nil => rfl
  | cons text rest ih => simp [texts?, ih]

end Label

end PreviewShots
