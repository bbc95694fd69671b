import TodoTracker.Anchor.Check
import TodoTracker.Task.Calls

/-!
# Keeping anchors up to date

A key that is sighted in a file gets its anchor there, and loses its other anchors in that file. At
the end every anchor below the roots that was not confirmed is checked: it moves to where the key
is now, or is dropped when a newer anchor has taken its file; an anchor that is missing or cannot
be checked is kept. Reanchoring keeps one anchor of each task, the one sighted last.
-/

set_option autoImplicit false

namespace TodoTracker

/-- What confirming an anchor has changed. -/
structure Confirmation where
  appended : Bool
  pruned : Nat
  deriving DecidableEq, Repr

namespace Sightings

def add (sightings : Sightings) (key : Text) (anchor : Anchor) : Sightings :=
  { sightings with
    confirmed := if sightings.confirmed.contains (key, anchor.file) then sightings.confirmed
      else sightings.confirmed ++ [(key, anchor.file)]
    latest := sightings.latest.set key anchor }

/-- The files in which a key was sighted. -/
def filesOf (sightings : Sightings) (key : Text) : List Text :=
  sightings.confirmed.filterMap fun (k, file) => if k = key then some file else none

end Sightings

namespace Reconciler

/-- Drop the anchors of a task that are in the file of `keep`, that one apart; the answer is their
number. -/
def pruneFile (reconciler : Reconciler) (key : Text) (keep : Anchor) : List Anchor → Work Nat
  | [] => return 0
  | anchor :: rest => do
    let pruned ←
      if anchor.file = keep.file ∧ anchor ≠ keep then
        if reconciler.dryRun then pure true else Tasks.remove key anchor
      else pure false
    let others ← reconciler.pruneFile key keep rest
    return others + pruned.toNat

/-- Note that a key was sighted on a line of a file, and anchor its task there. -/
def confirm (reconciler : Reconciler) (key : Text) (anchor : Anchor) : Work Confirmation := do
  modify fun w => { w with sightings := w.sightings.add key anchor }
  let anchors ← Tasks.anchors key
  let known := anchors.contains anchor
  let pruned ← reconciler.pruneFile key anchor anchors
  if !known && !reconciler.dryRun then Tasks.append key anchor
  return ⟨!known, pruned⟩

def warn (warning : Text) : Work Unit :=
  modify fun w =>
    { w with sightings := { w.sightings with warnings := w.sightings.warnings ++ [warning] } }

/-- Replace an anchor of a task by another one. -/
def move (reconciler : Reconciler) (key : Text) (old new : Anchor) : Work Unit := do
  if reconciler.dryRun then return
  if !(← Tasks.anchors key).contains new then Tasks.append key new
  let _ ← Tasks.remove key old

/-- Drop an anchor whose file has another one already. -/
def supersede (reconciler : Reconciler) (key : Text) (anchor : Anchor) (file : Text) :
    Work AnchorVerdict := do
  if !reconciler.dryRun then
    let _ ← Tasks.remove key anchor
  return {
    key, anchor, pruned := true
    state := if file = anchor.file then .confirmed else .renamed
    message := "superseded by anchor in ".toList ++ file }

/-- Check an anchor and do what the check asks for. -/
def recheck (reconciler : Reconciler) (key : Text) (anchor : Anchor) : Work AnchorVerdict := do
  let check ← Work.look (reconciler.inspect · key anchor)
  match check.state, check.place with
  | .unreadable, _ =>
    warn ("Kept anchor ".toList ++ key ++ " -> ".toList ++ anchor.file ++ ": ".toList ++
      check.message)
  | _, some place => if check.moved then reconciler.move key anchor place
  | _, none => pure ()
  return check

/-- Go through anchors of a task, the newest first. The files in `kept` have their anchor. -/
def reconcileAnchors (reconciler : Reconciler) (key : Text) (roots : List Location)
    (kept : List Text) : List Anchor → Work (List AnchorVerdict)
  | [] => return []
  | anchor :: rest => do
    let file := reconciler.effective anchor.file
    if !(← Work.look (reconciler.isBelow · roots anchor)) then
      reconciler.reconcileAnchors key roots kept rest
    else if (← get).sightings.confirmed.contains (key, anchor.file) && anchor.file == file then
      reconciler.reconcileAnchors key roots kept rest
    else if kept.contains file then do
      let check ← reconciler.supersede key anchor file
      return check :: (← reconciler.reconcileAnchors key roots kept rest)
    else do
      let check ← reconciler.recheck key anchor
      return check :: (← reconciler.reconcileAnchors key roots (file :: kept) rest)

/-- Check the anchors of a task below the roots that were not confirmed. -/
def reconcileKey (reconciler : Reconciler) (roots : List Location) (key : Text) :
    Work (List AnchorVerdict) := do
  let kept := (← get).sightings.filesOf key
  reconciler.reconcileAnchors key roots kept (← Tasks.anchors key).reverse

/-- Check every anchor below the roots that was not confirmed. -/
def reconcile (reconciler : Reconciler) (roots : List Location) : Work (List AnchorVerdict) := do
  let checks ← (← Tasks.anchored).mapM (reconciler.reconcileKey roots)
  return checks.flatten

/-- Drop the anchors of a task other than `keep`. -/
def dropOthers (reconciler : Reconciler) (key : Text) (keep : Anchor) :
    List Anchor → Work (List AnchorVerdict)
  | [] => return []
  | anchor :: rest => do
    if anchor = keep then reconciler.dropOthers key keep rest
    else do
      if !reconciler.dryRun then
        let _ ← Tasks.remove key anchor
      let check : AnchorVerdict :=
        { key, anchor, state := .confirmed, pruned := true,
          message := "reanchored to ".toList ++ keep.code }
      return check :: (← reconciler.dropOthers key keep rest)

/-- The anchor that a task keeps: the one sighted last if it is recorded, else the last recorded. -/
def kept? (sightings : Sightings) (key : Text) (anchors : List Anchor) : Option Anchor :=
  match Fields.get? sightings.latest key with
  | some latest => if anchors.contains latest then some latest else anchors.getLast?
  | none => anchors.getLast?

/-- Keep one anchor of a task. -/
def reanchorTask (reconciler : Reconciler) (key : Text) : Work (List AnchorVerdict) := do
  let anchors ← Tasks.anchors key
  if anchors.length ≤ 1 then return []
  match kept? (← get).sightings key anchors with
  | none => return []
  | some keep => reconciler.dropOthers key keep anchors

/-- Keep one anchor of every task. -/
def reanchor (reconciler : Reconciler) : Work (List AnchorVerdict) := do
  let checks ← (← Tasks.anchored).mapM reconciler.reanchorTask
  return checks.flatten

end Reconciler

end TodoTracker
