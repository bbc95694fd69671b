import TodoTracker.Anchor.Upkeep
import TodoTracker.Edit.Queue
import TodoTracker.Scan.Item

/-!
# Marks

A mark is the item of a candidate with what is still to be done about it: to confirm the anchor of
a key that was there, to anchor a new task, or to drop the anchor of a stale key. The last two wait
until the line has been written. The functions here say how each outcome shows in the items and
counts of a file.
-/

set_option autoImplicit false

namespace TodoTracker

inductive FollowUp
  | none
  | confirm (key : Text)
  | anchor (key : Text)
  | drop (key : Text)
  deriving DecidableEq, Repr

namespace FollowUp

/-- Whether the line has to be written first. -/
def waits : FollowUp → Bool
  | .anchor _ | .drop _ => true
  | _ => false

/-- The key whose sighting is to be confirmed. -/
def confirms? : FollowUp → Option Text
  | .confirm key => some key
  | _ => Option.none

end FollowUp

structure Mark where
  /-- The number of the mark in its file. -/
  number : Nat
  item : ScanItem
  followUp : FollowUp
  deriving DecidableEq, Repr

/-- What is known of a file that is being scanned. -/
structure FileScan where
  marks : List Mark := []
  counts : Counts := {}
  warnings : List Text := []
  edits : EditQueue := .empty

namespace Mark

def confirms (mark : Mark) (key : Text) : Bool := mark.followUp.confirms? == some key

/-- Whether `a` comes after `b` in the file. -/
def isLater (a b : Mark) : Bool :=
  b.item.line < a.item.line || (b.item.line == a.item.line && b.item.column < a.item.column)

/-- The last of the marks in the file. -/
def last? : List Mark → Option Mark
  | [] => none
  | mark :: rest => some (rest.foldl (fun best m => if m.isLater best then m else best) mark)

/-- The item of a mark whose edit was not made, and what that counts as. -/
def unwritten (mark : Mark) (reason : Text) : Mark × Counts :=
  let message :=
    if mark.item.status = .created then
      reason ++ "; task ".toList ++ mark.item.taskKey.getD [] ++ " has no anchor".toList
    else reason
  let stripped : Int := if mark.item.status ≠ .created ∧ mark.item.action = .prune then -1 else 0
  ({ mark with item := { mark.item.failed message with lineAfter := none } },
    { unresolved := 1, keysStripped := stripped })

/-- A mark of a key that is anchored at another mark, `best`. -/
def alongside (mark best : Mark) : Mark :=
  let message := if mark.item.line = best.item.line then []
    else "anchored at line ".toList ++ Text.ofNat best.item.line
  { mark with item := { mark.item with status := .unchanged, message } }

/-- The mark at which a key is anchored. -/
def anchored (mark : Mark) (result : Confirmation) : Mark :=
  let item := mark.item
  { mark with item :=
    if result.appended then
      { item with
        status := .updated
        message :=
          if 0 < result.pruned then "anchor moved".toList else "anchor recorded".toList }
    else if 0 < result.pruned then
      { item with status := .updated, message := "older anchors pruned".toList }
    else { item with status := .unchanged } }

end Mark

namespace FileScan

def count (scan : FileScan) (counts : Counts) : FileScan :=
  { scan with counts := scan.counts + counts }

def warn (scan : FileScan) (warning : Text) : FileScan :=
  { scan with warnings := scan.warnings ++ [warning] }

def addMark (scan : FileScan) (item : ScanItem) (followUp : FollowUp) : FileScan :=
  { scan with marks := scan.marks ++ [⟨scan.marks.length, item, followUp⟩] }

/-- The keys to be confirmed, in the order in which they first occur. -/
def sightedKeys (scan : FileScan) : List Text :=
  (scan.marks.filterMap (·.followUp.confirms?)).eraseDups

/-- The mark at which a key is to be anchored. -/
def lastMark? (scan : FileScan) (key : Text) : Option Mark :=
  Mark.last? (scan.marks.filter fun mark => mark.confirms key)

/-- The scan after a key was confirmed at the mark `best`. -/
def confirmed (scan : FileScan) (key : Text) (best : Mark) (result : Confirmation) : FileScan :=
  let marks := scan.marks.map fun mark =>
    if !mark.confirms key then mark
    else if mark.number = best.number then mark.anchored result
    else mark.alongside best
  { scan with marks }.count {
    anchorsConfirmed := 1
    anchorsAdded := if result.appended then 1 else 0
    anchorsPruned := result.pruned
    anchorsDrifted := if result.appended ∧ 0 < result.pruned then 1 else 0 }

/-- The scan after a key could not be confirmed. -/
def unconfirmed (scan : FileScan) (key : Text) (message : Text) : FileScan :=
  let marks := scan.marks.map fun mark =>
    if mark.confirms key then { mark with item := mark.item.failed message } else mark
  let hits := scan.marks.filter fun mark => mark.confirms key
  { scan with marks }.count { unresolved := hits.length }

/-- Show in the items what their lines become. -/
def previewed (scan : FileScan) (preview : List LineChange) : FileScan :=
  { scan with marks := scan.marks.map fun mark =>
      if !mark.followUp.waits then mark
      else match preview.find? (·.number == (mark.item.line : Int)) with
        | none => mark
        | some change =>
          { mark with item := { mark.item with lineAfter := some change.after } } }

/-- Say in the items that nothing was written. -/
def dryRun (scan : FileScan) : FileScan :=
  { scan with marks := scan.marks.map fun mark =>
      if mark.followUp.waits then
        { mark with item := { mark.item with message := "dry run".toList } }
      else mark }

/-- Put another mark in the place of the one with its number. -/
def replaceMark (scan : FileScan) (mark : Mark) : FileScan :=
  { scan with marks := scan.marks.map fun m => if m.number = mark.number then mark else m }

/-- The scan after the edit of a mark was not made. -/
def unwritten (scan : FileScan) (reason : Text) (mark : Mark) : FileScan :=
  let (failed, counts) := mark.unwritten reason
  (scan.replaceMark failed).count counts

/-- The marks that wait for their lines to be written. -/
def waiting (scan : FileScan) : List Mark := scan.marks.filter (·.followUp.waits)

end FileScan

end TodoTracker
