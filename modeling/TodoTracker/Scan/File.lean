import TodoTracker.Edit.Commit
import TodoTracker.Scan.Mark
import TodoTracker.Settings.Basic

/-!
# Scanning a file

The markers of a file are settled one after the other; tasks are created right away, while edits
are queued. Then the keys that were found are confirmed, each once, at their last place. The edits
are committed with one write, and only after it the anchors that depend on them are recorded or
dropped. What the task store refuses is noted in the items, and the scan goes on.
-/

set_option autoImplicit false

namespace TodoTracker

structure ScanRequest where
  /-- Where to look; nothing means the whole repository. -/
  roots : List Path := []
  createTasks : Bool := false
  reanchor : Bool := false
  dryRun : Bool := false
  included : List Text := []
  excluded : List Text := []
  modifiedOnly : Bool := false
  showProgress : Bool := false
  /-- How often the scan is told to go on before it is cancelled. -/
  cancelAfter : Option Nat := none

/-- A scan that is ready to run. -/
structure ScanJob where
  repo : Location
  settings : Settings
  options : ScanRequest
  scanner : Scanner
  roots : List Location
  /-- The repository that the status program is asked about. -/
  gitRoot : Option Location
  reconciler : Reconciler
  inquiry : Git.Inquiry

namespace ScanJob

def policy (job : ScanJob) : Policy where
  createTasks := job.options.createTasks
  mentions := job.settings.mentions
  stripAttributes := job.settings.stripAttributes

/-- What a candidate asks for. The store is asked only about a key that is there. -/
def decide (job : ScanJob) (candidate : Candidate) : Work Decision :=
  match candidate.key with
  | none => return .withoutKey candidate job.policy
  | some key => do return .withKey candidate job.policy key (← Tasks.has key)

/-- The key of a new task. -/
def takeKey (job : ScanJob) (seed : Seed) : Work (Except StoreError Text) :=
  if job.options.dryRun then return .ok (job.settings.project ++ "-NEW".toList)
  else Work.attempt (Tasks.create seed.fields)

/-- The edits that write the key of a new task into the line of its marker. -/
def creationSplices (job : ScanJob) (candidate : Candidate) (key : Text) : List Splice :=
  let insertion := Splice.keyInsertion? candidate.text candidate.signalStop key
    job.settings.insertionFormat
  let removals :=
    if job.settings.stripAttributes then
      Splice.attributeRemovals candidate.text candidate.signalStop candidate.segmentStop
    else []
  insertion.toList ++ removals

/-- Create the task that a marker asks for. -/
def openTask (job : ScanJob) (file : Text) (path : Path) (scan : FileScan)
    (candidate : Candidate) (item : ScanItem) : Work FileScan := do
  let seed := Seed.ofAttributes (candidate.taskTitle file) candidate.attributes
  match ← job.takeKey seed with
  | .error e =>
    let failed := item.failed ("task creation failed: ".toList ++ e.message)
    return (scan.count { unresolved := 1 }).addMark failed .none
  | .ok key => do
    let splices := job.creationSplices candidate key
    let edits ← Work.ofExcept (scan.edits.add path.text ⟨candidate.line, candidate.text, splices⟩)
    let scan := { scan with edits }.count { tasksCreated := 1 }
    return scan.addMark { item with taskKey := some key, status := .created } (.anchor key)

/-- Remove a stale key. -/
def pruneKey (path : Path) (scan : FileScan) (candidate : Candidate) (item : ScanItem)
    (found : CarriedKey) : Work FileScan := do
  let splice := Splice.keyRemoval candidate.text found candidate.segmentStop
  let edits ← Work.ofExcept (scan.edits.add path.text ⟨candidate.line, candidate.text, [splice]⟩)
  let scan := { scan with edits }.count { keysStripped := 1 }
  return scan.addMark { item with status := .updated, message := "stale key removed".toList }
    (.drop found.key)

/-- Resolve a candidate, and do what need not wait. -/
def scanCandidate (job : ScanJob) (file : Text) (path : Path) (scan : FileScan)
    (candidate : Candidate) : Work FileScan := do
  let scan := scan.count (.ofCandidate candidate)
  let item := ScanItem.ofCandidate file candidate
  match ← Work.attempt (job.decide candidate) with
  | .error e => return (scan.count { unresolved := 1 }).addMark (item.failed e.message) .none
  | .ok decision =>
    let item := item.decided decision
    match decision.action, candidate.carried with
    | .create, _ => job.openTask file path scan candidate item
    | .confirm, some found =>
      return scan.addMark item (if found.key.isEmpty then .none else .confirm found.key)
    | .prune, some found => pruneKey path scan candidate item found
    | _, _ => return scan.addMark item .none

/-- Confirm a key that was found in a file. -/
def confirmKey (job : ScanJob) (file : Text) (scan : FileScan) (key : Text) :
    Work FileScan := do
  match scan.lastMark? key with
  | none => return scan
  | some best =>
    match ← Work.attempt (job.reconciler.confirm key ⟨file, best.item.line⟩) with
    | .ok result => return scan.confirmed key best result
    | .error e => return scan.unconfirmed key e.message

/-- Record or drop the anchor that waited for a line to be written. -/
def finish (job : ScanJob) (file : Text) (stale : List Int) (scan : FileScan)
    (mark : Mark) : Work FileScan := do
  if stale.contains mark.item.line then
    return scan.unwritten "line changed during scan".toList mark
  let anchor : Anchor := ⟨file, mark.item.line⟩
  match mark.followUp with
  | .anchor key =>
    match ← Work.attempt (job.reconciler.confirm key anchor) with
    | .ok result =>
      return scan.count {
        anchorsAdded := if result.appended then 1 else 0, anchorsPruned := result.pruned }
    | .error e =>
      let message := "anchor not recorded: ".toList ++ e.message
      return (scan.replaceMark { mark with item := { mark.item with message } }).count
        { unresolved := 1 }
  | .drop key =>
    match ← Work.attempt (Tasks.remove key anchor) with
    | .ok removed => return if removed then scan.count { anchorsPruned := 1 } else scan
    | .error e =>
      return scan.warn ("Failed to drop anchor ".toList ++ key ++ " -> ".toList ++ file ++
        ':' :: Text.ofNat mark.item.line ++ ": ".toList ++ e.message)
  | _ => return scan

/-- Write the queued edits and do what has waited for them. -/
def commit (job : ScanJob) (file : Text) (path : Path) (scan : FileScan) :
    Work FileScan := do
  let scan := scan.previewed (← Work.ofExcept scan.edits.preview)
  if job.options.dryRun then return scan.dryRun
  match ← Work.attemptFile (scan.edits.commit path) with
  | .error message =>
    let warning := "Failed to write ".toList ++ file ++ ": ".toList ++ message
    let reason := "write failed: ".toList ++ message
    return scan.waiting.foldl (·.unwritten reason ·)
      ((scan.warn warning).count { writeFailures := 1 })
  | .ok result =>
    let scan := if result.applied.isEmpty then scan else scan.count { filesWritten := 1 }
    scan.waiting.foldlM (job.finish file result.stale) scan

/-- Scan a file. -/
def visitFile (job : ScanJob) (path : Path) (grammar : Grammar) : Work FileScan := do
  let file ← Work.look (·.displayPath path job.repo)
  match ← Work.attemptFile (Work.look (·.readText path)) with
  | .error message =>
    let warning := "Skipped ".toList ++ file ++ ": ".toList ++ message
    return (({} : FileScan).warn warning).count { filesSkipped := 1 }
  | .ok text => do
    let start := ({} : FileScan).count { filesScanned := 1 }
    let candidates := job.scanner.scan text.contents grammar
    let scan ← candidates.foldlM (job.scanCandidate file path) start
    let scan ← scan.sightedKeys.foldlM (job.confirmKey file) scan
    job.commit file path scan

end ScanJob

end TodoTracker
