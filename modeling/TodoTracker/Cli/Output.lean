import TodoTracker.Scan.Report

/-!
# Reports as text

A report has a line for every count, then at most `limit` lines of each section: the items about
which something was done, the anchors that are not simply confirmed, and the warnings.
-/

set_option autoImplicit false

namespace TodoTracker

/-- How many bytes of a changed line are shown. -/
def previewSize : Int := 160

def Json.showText : Json → Text
  | .bool true => "True".toList
  | .bool false => "False".toList
  | .int n => Text.ofInt n
  | _ => []

/-- The first text that is not empty. -/
def firstText (texts : List (Option Text)) (default : Text) : Text :=
  ((texts.filterMap id).find? (! ·.isEmpty)).getD default

namespace ScanItem

def showText (item : ScanItem) : Text :=
  let key := firstText [item.taskKey, item.existingKey] ['-']
  let updated := match item.lineAfter with
    | none => []
    | some line => "  ".toList ++ (Text.trim line).preview previewSize
  let message := if item.message.isEmpty then [] else "  (".toList ++ item.message ++ [')']
  "  ".toList ++ item.file ++ ':' :: Text.ofNat item.line ++ ' ' :: item.status.text ++
    ' ' :: key ++ updated ++ message

end ScanItem

namespace AnchorVerdict

def showText (check : AnchorVerdict) : Text :=
  let change :=
    if check.pruned then " pruned".toList
    else match check.place with
      | none => []
      | some place => if check.moved then " -> ".toList ++ place.code else []
  let message := if check.message.isEmpty then [] else "  (".toList ++ check.message ++ [')']
  "  ".toList ++ check.key ++ ' ' :: check.anchor.code ++ ' ' :: check.state.text ++ change ++
    message

end AnchorVerdict

namespace ScanReport

/-- A section with its title, at most `limit` lines, and the number of those that are left out. -/
def showSection (title : String) (limit : Nat) (lines : List Text) : List Text :=
  if lines.isEmpty then []
  else
    let rest := lines.length - limit
    let more := if rest = 0 then [] else
      ["  ... ".toList ++ Text.ofNat rest ++ " more".toList]
    title.toList :: lines.take limit ++ more

def showText (report : ScanReport) (limit : Nat) : Text :=
  let counts := report.summary.map fun field =>
    Text.upper field.1 ++ ": ".toList ++ field.2.showText
  let items := report.items.filter (·.status != .skipped)
  let checks := report.checks.filter fun check => check.state != .confirmed || check.pruned
  let warnings :=
    if report.warnings.isEmpty then []
    else "WARNINGS:".toList :: (report.warnings.take limit).map ("  ".toList ++ ·)
  Text.joinWith ['\n'] (counts ++
    showSection "ENTRIES:" limit (items.map ScanItem.showText) ++
    showSection "ANCHORS:" limit (checks.map AnchorVerdict.showText) ++ warnings)

end ScanReport

end TodoTracker
