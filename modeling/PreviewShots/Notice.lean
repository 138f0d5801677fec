import PreviewShots.Fault

/-!
# Notices

What the program reports while it runs. Notices are causes; `text` words them.
-/

namespace PreviewShots

inductive Level where
  | info | warning | error | critical
  deriving DecidableEq, Repr

def Level.name : Level → Text
  | .info => "INFO"
  | .warning => "WARNING"
  | .error => "ERROR"
  | .critical => "CRITICAL"

inductive Notice where
  | loading (path : Text)
  | loaded (files functions classes : Nat)
  | dumpUnreadable (path : Text)
  | dumpMalformed (path : Text) (cause : DumpFault)
  | optionsUnreadable (path : Text)
  | optionsNoObject (path : Text)
  | symbolsMissing
  | exiting
  | privatePreview (function path : Text)
  | providersIgnored (function : Text) (parameters : List Text)
  | notForwarded (function parameter : Text)
  | unitTwice (unit function : Text)
  | unitWritten (unit : Text) (tests : Nat)
  | reportWritten (path : Text) (new total : Nat)
  | roundDone (files units deferred : Nat)
  | manifestWritten (units : Nat) (path : Text)
  | unresolved (function : Text)
  | complete (units : Nat) (path : Text) (deferred : Nat)
  | recordMalformed (line : Text)
  | sourceMissing (path : Text)

namespace Notice

def level : Notice → Level
  | .loading _ | .loaded .. | .unitWritten .. | .reportWritten .. | .roundDone ..
  | .manifestWritten .. | .complete .. => .info
  | .privatePreview .. | .providersIgnored .. | .notForwarded .. | .unitTwice .. | .unresolved _
  | .recordMalformed _ | .sourceMissing _ => .warning
  | .dumpUnreadable _ | .dumpMalformed .. | .optionsUnreadable _ | .optionsNoObject _
  | .symbolsMissing => .error
  | .exiting => .critical

def text : Notice → Text
  | .loading path => "Loading symbols from: " ++ path
  | .loaded files functions classes =>
    "Loaded " ++ Text.ofNat files ++ " source files, " ++ Text.ofNat functions ++ " functions, " ++
      Text.ofNat classes ++ " classes."
  | .dumpUnreadable path => "Failed to load or parse symbol dump " ++ path
  | .dumpMalformed path cause => "Malformed symbol dump " ++ path ++ ": " ++ cause.message
  | .optionsUnreadable path => "Failed to load processor options from " ++ path
  | .optionsNoObject path => "Processor options in " ++ path ++ " must be a JSON object."
  | .symbolsMissing => "--symbols is required in 'generate' mode."
  | .exiting => "Failed to load the symbol dump. Exiting."
  | .privatePreview function path =>
    "Private preview '" ++ function ++ "' in " ++ path ++ " cannot be screenshot-tested."
  | .providersIgnored function parameters =>
    function ++ ": only the first provider parameter is forwarded; ignoring " ++
      Text.joinWith ", " parameters ++ "."
  | .notForwarded function parameter =>
    function ++ ": parameter '" ++ parameter ++ "' has no default and is not forwarded."
  | .unitTwice unit function =>
    unit ++ ": '" ++ function ++ "' is generated twice with the same parameters."
  | .unitWritten unit tests =>
    "Generated " ++ unit ++ " with " ++ Text.ofNat tests ++ " screenshot tests."
  | .reportWritten path new total =>
    "Visibility report " ++ path ++ ": " ++ Text.ofNat new ++ " new, " ++ Text.ofNat total ++ " total."
  | .roundDone files units deferred =>
    "Round done: " ++ Text.ofNat files ++ " source files scanned, " ++ Text.ofNat units ++
      " test files generated so far, " ++ Text.ofNat deferred ++ " functions deferred."
  | .manifestWritten units path =>
    "Wrote dependency manifest for " ++ Text.ofNat units ++ " files to " ++ path
  | .unresolved function => "Unable to process " ++ function ++ ": unresolved types."
  | .complete units path deferred =>
    "Generation complete: " ++ Text.ofNat units ++ " files in " ++ path ++ ", " ++
      Text.ofNat deferred ++ " deferred."
  | .recordMalformed line =>
    "Ignoring malformed report line: " ++ Json.shownText line
  | .sourceMissing path => "Reported file no longer exists: " ++ path

def line (notice : Notice) : Text :=
  notice.level.name ++ ": " ++ notice.text

end Notice

end PreviewShots
