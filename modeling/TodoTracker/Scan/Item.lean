import TodoTracker.Anchor.Check
import TodoTracker.Scan.Decision

/-!
# What a scan reports

Every marker and every mention gives an item, which says what was asked for and what came of it.
The counts of a scan are sums: over its files, and over the anchors that were checked at its end.
-/

set_option autoImplicit false

namespace TodoTracker

inductive Status
  | created
  | updated
  | unchanged
  | skipped
  | failed
  deriving DecidableEq, Repr

def Status.text : Status → Text
  | .created => "created".toList
  | .updated => "updated".toList
  | .unchanged => "unchanged".toList
  | .skipped => "skipped".toList
  | .failed => "failed".toList

structure ScanItem where
  file : Text
  line : Nat
  column : Nat
  signal : Option Text
  existingKey : Option Text
  action : Action
  status : Status
  /-- The key of the task that the marker belongs to. -/
  taskKey : Option Text
  lineBefore : Text
  lineAfter : Option Text
  message : Text
  deriving DecidableEq, Repr

namespace ScanItem

/-- The item of a candidate that nothing was done about yet. -/
def ofCandidate (file : Text) (candidate : Candidate) : ScanItem where
  file
  line := candidate.line
  column := candidate.column
  signal := candidate.signal
  existingKey := candidate.key
  action := .ignore
  status := .skipped
  taskKey := none
  lineBefore := candidate.text
  lineAfter := none
  message := []

def decided (item : ScanItem) (decision : Decision) : ScanItem :=
  { item with action := decision.action, taskKey := decision.key, message := decision.reason }

def failed (item : ScanItem) (message : Text) : ScanItem :=
  { item with status := .failed, message }

/-- By file, then line, then column. -/
def order (a b : ScanItem) : Bool :=
  if a.file ≠ b.file then Text.le a.file b.file
  else a.line < b.line || (a.line == b.line && a.column ≤ b.column)

end ScanItem

structure Counts where
  filesScanned : Int := 0
  filesSkipped : Int := 0
  filesWritten : Int := 0
  markersFound : Int := 0
  mentionsFound : Int := 0
  tasksCreated : Int := 0
  anchorsConfirmed : Int := 0
  anchorsAdded : Int := 0
  anchorsDrifted : Int := 0
  anchorsRenamed : Int := 0
  anchorsMissing : Int := 0
  anchorsUnreadable : Int := 0
  anchorsPruned : Int := 0
  keysStripped : Int := 0
  unresolved : Int := 0
  writeFailures : Int := 0
  deriving DecidableEq, Repr

namespace Counts

def add (a b : Counts) : Counts where
  filesScanned := a.filesScanned + b.filesScanned
  filesSkipped := a.filesSkipped + b.filesSkipped
  filesWritten := a.filesWritten + b.filesWritten
  markersFound := a.markersFound + b.markersFound
  mentionsFound := a.mentionsFound + b.mentionsFound
  tasksCreated := a.tasksCreated + b.tasksCreated
  anchorsConfirmed := a.anchorsConfirmed + b.anchorsConfirmed
  anchorsAdded := a.anchorsAdded + b.anchorsAdded
  anchorsDrifted := a.anchorsDrifted + b.anchorsDrifted
  anchorsRenamed := a.anchorsRenamed + b.anchorsRenamed
  anchorsMissing := a.anchorsMissing + b.anchorsMissing
  anchorsUnreadable := a.anchorsUnreadable + b.anchorsUnreadable
  anchorsPruned := a.anchorsPruned + b.anchorsPruned
  keysStripped := a.keysStripped + b.keysStripped
  unresolved := a.unresolved + b.unresolved
  writeFailures := a.writeFailures + b.writeFailures

instance : Add Counts := ⟨add⟩

/-- What a candidate counts as. -/
def ofCandidate (candidate : Candidate) : Counts :=
  if candidate.isMention then { mentionsFound := 1 } else { markersFound := 1 }

/-- What the check of an anchor counts as. -/
def ofCheck (check : AnchorVerdict) : Counts :=
  match check.state, check.pruned with
  | .renamed, pruned => { anchorsRenamed := 1, anchorsPruned := if pruned then 1 else 0 }
  | _, true => { anchorsPruned := 1 }
  | .drifted, _ => { anchorsDrifted := 1 }
  | .missing, _ => { anchorsMissing := 1 }
  | .unreadable, _ => { anchorsUnreadable := 1 }
  | .confirmed, _ => {}

/-- The counts with their names, in the order of reports. -/
def fields (counts : Counts) : Fields Int :=
  [("files_scanned", counts.filesScanned), ("files_skipped", counts.filesSkipped),
    ("files_written", counts.filesWritten), ("markers_found", counts.markersFound),
    ("mentions_found", counts.mentionsFound), ("tasks_created", counts.tasksCreated),
    ("anchors_confirmed", counts.anchorsConfirmed), ("anchors_added", counts.anchorsAdded),
    ("anchors_drifted", counts.anchorsDrifted), ("anchors_renamed", counts.anchorsRenamed),
    ("anchors_missing", counts.anchorsMissing),
    ("anchors_unreadable", counts.anchorsUnreadable), ("anchors_pruned", counts.anchorsPruned),
    ("keys_stripped", counts.keysStripped), ("unresolved", counts.unresolved),
    ("write_failures", counts.writeFailures)].map fun field => (String.toList field.1, field.2)

end Counts

end TodoTracker
