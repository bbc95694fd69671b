import TodoTracker.Json.Value
import TodoTracker.Scan.Job

/-!
# Scan reports as documents

The document of a report has its counts, items, checked anchors and warnings.
-/

set_option autoImplicit false

namespace TodoTracker

def Json.ofText? : Option Text → Json
  | none => .null
  | some t => .str t

def ScanItem.toJson (item : ScanItem) : Json :=
  .object [("file".toList, .str item.file), ("line".toList, .int item.line),
    ("column".toList, .int item.column), ("signal".toList, .ofText? item.signal),
    ("existing_key".toList, .ofText? item.existingKey),
    ("action".toList, .str item.action.text), ("status".toList, .str item.status.text),
    ("task_key".toList, .ofText? item.taskKey),
    ("original_line".toList, .str item.lineBefore),
    ("updated_line".toList, .ofText? item.lineAfter), ("message".toList, .str item.message)]

def AnchorVerdict.toJson (check : AnchorVerdict) : Json :=
  .object [("task".toList, .str check.key), ("file".toList, .str check.anchor.file),
    ("line".toList, .int check.anchor.line), ("state".toList, .str check.state.text),
    ("new_file".toList, .ofText? (check.place.map Anchor.file)),
    ("new_line".toList, (check.place.map fun place => Json.int place.line).getD .null),
    ("pruned".toList, .bool check.pruned), ("message".toList, .str check.message)]

namespace ScanReport

/-- The counts and the two switches, in order. -/
def summary (report : ScanReport) : Fields Json :=
  report.counts.fields.map (fun field => (field.1, Json.int field.2)) ++
    [("cancelled".toList, .bool report.cancelled), ("dry_run".toList, .bool report.dryRun)]

def toJson (report : ScanReport) : Json :=
  .object [("summary".toList, .object report.summary),
    ("entries".toList, .list (report.items.map ScanItem.toJson)),
    ("anchors".toList, .list (report.checks.map AnchorVerdict.toJson)),
    ("warnings".toList, .list (report.warnings.map .str))]

end ScanReport

end TodoTracker
