import PreviewShots.Label
import PreviewShots.Text.DecimalDigit

/-!
# Settings

What the command line asks for. An option is spelled in full, by its letter, or
by a beginning that no other option has; its value follows as the next word,
after an equals sign, or right behind the letter. A word that starts with a
hyphen is a value only if it is a number or holds a space. Letters may follow the
letter for help: they are options as well, of which only the last has a value.
Two hyphens are the separator: words behind it are no options, and as the value
that is attached to an option it is dropped.
-/

namespace PreviewShots

inductive Mode where
  | generate | fixVisibility
  deriving DecidableEq, Repr

/-- The values of options are labels: null stands for an option that is not given,
and an empty list for one whose value was dropped. -/
structure Settings where
  mode : Mode := .generate
  symbols : Label := .null
  outputDirectory : Label := .string "build/generated/autoshot/kotlin"
  report : Label := .null
  /-- The fragments given, in order; none if no option was given. -/
  excluded : Option (List Label) := none
  optionsFile : Label := .null
  manifest : Label := .null
  root : Label := .null
  debug : Bool := false

namespace Settings

-- ---------------------------------------------------------------------------
-- Words
-- ---------------------------------------------------------------------------

inductive Flag where
  | help | mode | symbols | outputDirectory | report | exclude | optionsFile | manifest | root | debug
  deriving DecidableEq, Repr

def separator : Text := "--"

def spellings : List (Text × Flag) := [
  ("-h", .help), ("--help", .help), ("--mode", .mode), ("-s", .symbols), ("--symbols", .symbols),
  ("-o", .outputDirectory), ("--output-dir", .outputDirectory), ("--report", .report),
  ("-e", .exclude), ("--exclude", .exclude), ("--options-json", .optionsFile),
  ("--manifest", .manifest), ("--root", .root), ("--debug", .debug)]

/-- What a word of the command line is. -/
inductive Word where
  | value (text : Text)
  | flag (name : Flag) (value : Option Text)
  /-- The letter for help with more characters behind it. -/
  | helpWith (rest : Text)
  | separator
  | unknown
  | ambiguous
  deriving DecidableEq, Repr

/-- The parts before and after the first equals sign. -/
def cutEquals (text : Text) : Text × Option Text :=
  match text.dropWhile (· ≠ CodePoint.char '=') with
  | [] => (text, none)
  | _ :: rest => (text.takeWhile (· ≠ CodePoint.char '='), some rest)

/-- A hyphen and decimal digits of any script, with at most one point and a digit
behind it. One line feed at the end is let pass. -/
def isNumber (text : Text) : Bool :=
  match if text.getLast? = some (.char '\n') then text.dropLast else text with
  | .char '-' :: digits =>
    match digits.dropWhile Text.isDecimalDigit with
    | [] => !digits.isEmpty
    | .char '.' :: places => !places.isEmpty && places.all Text.isDecimalDigit
    | _ => false
  | _ => false

/-- An option that is not spelled in full. -/
def abbreviated (text : Text) : List Word :=
  match text with
  | .char '-' :: .char '-' :: _ =>
    let (start, value) := cutEquals text
    (spellings.filter fun (name, _) => start.isPrefixOf name).map fun (_, flag) => .flag flag value
  | _ =>
    (spellings.filter fun (name, _) => name = text.take 2).map fun (_, flag) =>
      if flag = .help then .helpWith (text.drop 2) else .flag flag (some (text.drop 2))

def classify (word : Text) : Word :=
  if word = separator then .separator
  else if word.head? ≠ some (.char '-') || word = "-" then .value word
  else match spellings.lookup word with
    | some flag => .flag flag none
    | none =>
      let (start, value) := cutEquals word
      match value, spellings.lookup start with
      | some value, some flag =>
        if start = "-h" then .helpWith value else .flag flag (some value)
      | _, _ =>
        match abbreviated word with
        | [found] => found
        | _ :: _ :: _ => .ambiguous
        | [] => if isNumber word || .char ' ' ∈ word then .value word else .unknown

/-- Words after a separator are never options. -/
def classifyAll : List Text → List Word
  | [] => []
  | word :: words =>
    match classify word with
    | .separator => .separator :: words.map .value
    | other => other :: classifyAll words

-- ---------------------------------------------------------------------------
-- Reading
-- ---------------------------------------------------------------------------

/-- The mode of that name; a dropped name asks for the usual one. -/
def mode? (value : Label) : Option Mode :=
  match value.text? with
  | none => some .generate
  | some name =>
    if name = "generate" then some .generate
    else if name = "fix-visibility" then some .fixVisibility
    else none

/-- The settings with the option, unless it refuses the value. -/
def apply (settings : Settings) (flag : Flag) (value : Label) : Option Settings :=
  match flag with
  | .mode => (mode? value).map fun mode => { settings with mode }
  | .symbols => some { settings with symbols := value }
  | .outputDirectory => some { settings with outputDirectory := value }
  | .report => some { settings with report := value }
  | .exclude => some { settings with excluded := some (settings.excluded.getD [] ++ [value]) }
  | .optionsFile => some { settings with optionsFile := value }
  | .manifest => some { settings with manifest := value }
  | .root => some { settings with root := value }
  | .help | .debug => none

/-- The value that a text attached to an option gives it. -/
def attached (text : Text) : Label :=
  if text = separator then .array [] else .string text

inductive Outcome where
  | run (settings : Settings)
  | help
  | invalid

/-- What the characters behind the letter for help ask for: each has to be the letter
of an option, and the first option with a value takes what is left, or else the
next word. Help is given once all of them are read. -/
def readLetters (next : Option Word) : Text → Outcome
  | [] => .invalid
  | c :: rest =>
    match spellings.lookup [.char '-', c] with
    | none => .invalid
    | some .help => if rest.isEmpty then .help else readLetters next rest
    | some _ =>
      if !rest.isEmpty then .help
      else match next with
        | some (.value _) => .help
        | _ => .invalid

/-- Reads the words from the left; `stray` tells whether one before had no place. -/
def read (stray : Bool) (settings : Settings) : List Word → Outcome
  | [] => if stray then .invalid else .run settings
  | .flag .help none :: _ => .help
  | .helpWith letters :: rest => readLetters rest.head? letters
  | .flag .debug none :: rest => read stray { settings with debug := true } rest
  | .flag name (some value) :: rest =>
    match settings.apply name (attached value) with
    | some settings => read stray settings rest
    | none => .invalid
  | .flag name none :: .value value :: rest =>
    match settings.apply name (.string value) with
    | some settings => read stray settings rest
    | none => .invalid
  | .flag _ none :: _ => .invalid
  | _ :: rest => read true settings rest

def parse (words : List Text) : Outcome :=
  let words := classifyAll words
  if words.contains .ambiguous then .invalid else read false {} words

end Settings

end PreviewShots
