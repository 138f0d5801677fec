import PreviewShots.FileName
import PreviewShots.Label
import PreviewShots.Text.Blank
import PreviewShots.Text.Lead
import PreviewShots.Text.Lowercase

/-!
# Configuration

The settings of one run. Paths that hold an excluded fragment are never
scanned; letter case and the direction of slashes do not matter there.
-/

namespace PreviewShots

structure Config where
  excludedPaths : List Label :=
    [.string "/generated/", .string "/test/", .string "/androidTest/", .string "/screenshotTest/"]
  reportPath : Text := "build/autoshot/preview_visibility_report.txt"
  suffix : Text := "ScreenshotTest"
  preview : Label := .string "androidx.compose.ui.tooling.preview.Preview"
  previewParameter : Label := .string "androidx.compose.ui.tooling.preview.PreviewParameter"
  previewTest : Label := .string "com.android.tools.screenshot.PreviewTest"
  composable : Label := .string "androidx.compose.runtime.Composable"
  ignorePreview : Label := .string "com.fediim.autoshot.annotation.IgnorePreview"

/-- Named settings, each name once. Their values are texts as a rule. -/
abbrev Options := List (Text × Label)

namespace Options

def excludedPaths : Text := "autoshot.excludedPaths"

def reportPath : Text := "autoshot.reportPath"

def suffix : Text := "autoshot.suffix"

/-- The value of a setting, if it is not missing. -/
def chosen? (options : Options) (name : Text) : Option Label :=
  (options.lookup name).filter (·.isTruthy)

def report (options : Options) : Label :=
  (options.chosen? reportPath).getD (.string ({} : Config).reportPath)

def unitSuffix (options : Options) : Label :=
  (options.chosen? suffix).getD (.string ({} : Config).suffix)

/-- The excluded paths have to be a text, or null for the default. -/
def isReadable (options : Options) : Bool :=
  match options.lookup excludedPaths with
  | none | some .null | some (.string _) => true
  | _ => false

end Options

namespace Config

open PreviewShots.Text

/-- Fragments are set apart by commas; blanks around them and blank ones are dropped. -/
def fragments (text : Text) : List Text :=
  ((splitOn (.char ',') text).map trim).filter (!·.isEmpty)

def ofOptions (options : Options) : Config :=
  let defaults : Config := {}
  { defaults with
    excludedPaths := match options.lookup Options.excludedPaths with
      | none | some .null => defaults.excludedPaths
      | some label => (fragments label.plain).map .string
    reportPath := options.report.plain
    suffix := options.unitSuffix.plain }

/-- Whether a text holds one of the fragments, which are looked for one by one; a
fragment that is no text cannot be looked for. -/
def holdsAny? (text : Text) : List Label → Option Bool
  | [] => some false
  | .string fragment :: rest => if holds (lower fragment) text then some true else holdsAny? text rest
  | _ :: _ => none

/-- Whether files with that path are never scanned, if that can be told. -/
def isExcluded? (config : Config) (path : Text) : Option Bool :=
  holdsAny? (lower (FileName.slashed path)) config.excludedPaths

end Config

end PreviewShots
