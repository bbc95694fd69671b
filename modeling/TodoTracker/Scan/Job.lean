import TodoTracker.Traversal.Walk
import TodoTracker.Scan.File

/-!
# Scanning a repository

A job checks its settings and finds its roots before any file is touched. Then every file that
the walk yields and that has a grammar is scanned, until the scan is cancelled. At the end of a scan
that was not cancelled the anchors that it did not confirm are checked.
-/

set_option autoImplicit false

namespace TodoTracker

/-- The outcome of a scan. -/
structure ScanReport where
  counts : Counts
  cancelled : Bool
  dryRun : Bool
  items : List ScanItem
  checks : List AnchorVerdict
  warnings : List Text

/-- A scan whose walk has come to some file. -/
structure ScanRun where
  workspace : Workspace
  /-- How often it was asked whether to go on. -/
  queries : Nat := 0
  cancelled : Bool := false
  scans : List FileScan := []
  /-- The first failure that is not one of the store or of a single file. -/
  failure : Option Failure := none

namespace ScanJob

/-- The locations of the roots, which must exist. -/
def rootsOf (tree : FileTree) (repo : Location) (roots : List Path) :
    Except Failure (List Location) :=
  let roots := if roots.isEmpty then [Path.ofLocation repo] else roots
  roots.mapM fun root => do
    let path := (Path.ofLocation repo).join root
    if !(← tree.existsAt path) then throw (.rootNotFound root.text)
    tree.resolve path

/-- Renames as they are written in anchors. -/
def displayRenames (tree : FileTree) (repo gitRoot : Location) (renames : Fields Text) :
    Except Failure (Fields Text) := do
  let base := Path.ofLocation gitRoot
  let pairs ← renames.mapM fun (old, new) => do
    return (← tree.displayPath (base.join (.ofText old)) repo,
      ← tree.displayPath (base.join (.ofText new)) repo)
  return Fields.ofList pairs

/-- Check the settings and find the roots and renames. -/
def start (repo : Location) (settings : Settings) (options : ScanRequest) :
    Work ScanJob := do
  let patterns ← Work.ofExcept settings.compiled
  let roots ← Work.look (rootsOf · repo options.roots)
  let gitRoot ← Work.look (Git.findRoot · (.ofLocation repo))
  let (outcome, inquiry) := Git.Inquiry.start.renames (← get).git gitRoot
  let renames ← Work.ofExcept outcome
  let renames ← match gitRoot with
    | none => pure []
    | some gitRoot => Work.look (displayRenames · repo gitRoot renames)
  return {
    repo, settings, options, roots, gitRoot, inquiry
    scanner := .make settings.allSignalWords patterns settings.mentions
    reconciler := ⟨repo, settings.searchRadius, renames, options.dryRun⟩ }

def announce (job : ScanJob) (line : Text) : Work Unit :=
  if job.options.showProgress then Work.report line else return ()

/-- Whether the scan is cancelled when it is asked for the next time. -/
def isCancelled (job : ScanJob) (run : ScanRun) : Bool :=
  job.options.cancelAfter.any (· ≤ run.queries)

/-- Scan a file and keep its outcome. -/
def scanInto (job : ScanJob) (path : Path) (grammar : Grammar) (run : ScanRun) : ScanRun :=
  match (job.visitFile path grammar).run run.workspace with
  | (.ok scan, workspace) => { run with workspace, scans := run.scans ++ [scan] }
  | (.error e, workspace) => { run with workspace, failure := run.failure.or (some e) }

/-- Deal with a file that the walk yields. The scan is asked whether to go on before it looks at a
file, and again before it scans one. -/
def visit (job : ScanJob) (path : Path) (run : ScanRun) : Bool × ScanRun :=
  let asked := { run with queries := run.queries + 1 }
  if job.isCancelled run then (false, { asked with cancelled := true })
  else match Grammar.ofPath? path with
    | none => (true, asked)
    | some grammar =>
      let started := { asked with queries := asked.queries + 1 }
      if job.isCancelled asked then (true, { started with cancelled := true })
      else (true, job.scanInto path grammar started)

/-- Scan the files that a walk yields; the answer has the warnings of the walk. -/
def scanFiles (job : ScanJob) (only : Option (List Location)) :
    Work (ScanRun × List Text) := do
  let request : WalkRequest :=
    ⟨some (.ofLocation job.repo), job.options.included, job.options.excluded, only⟩
  let workspace ← get
  let walker := Walker.start (job.roots.map .ofLocation) workspace.directories
  let (outcome, walker, run) :=
    Walker.run request (·.workspace.disk.tree) job.visit walker { workspace }
  set run.workspace
  Work.ofExcept outcome
  match run.failure with
  | some e => throw e
  | none => return (run, walker.warnings)

/-- Check the anchors that the scan did not confirm. -/
def checkAnchors (job : ScanJob) : Work (List AnchorVerdict) := do
  let checks ← job.reconciler.reconcile job.roots
  if !job.options.reanchor then return checks
  return checks ++ (← job.reconciler.reanchor)

def run (job : ScanJob) : Work ScanReport := do
  modify fun w => { w with sightings := {} }
  let w ← get
  let (outcome, inquiry) :=
    if job.options.modifiedOnly then
      job.inquiry.changed w.git w.disk.tree job.gitRoot
    else (.ok none, job.inquiry)
  let only ← Work.ofExcept outcome
  job.announce ("  [....] Scanning ".toList ++ plural job.roots.length "root".toList)
  let (run, walkWarnings) ← job.scanFiles only
  let fileCounts := run.scans.foldl (fun total scan => total + scan.counts) {}
  let checks ← if run.cancelled then pure [] else do
    job.announce "  [....] Reconciling anchors".toList
    job.checkAnchors
  job.announce ("  [done] Scanned ".toList ++ plural fileCounts.filesScanned "file".toList ++
    ", ".toList ++ plural fileCounts.markersFound "marker".toList)
  return {
    counts := checks.foldl (fun total check => total + .ofCheck check) fileCounts
    cancelled := run.cancelled
    dryRun := job.options.dryRun
    items := (run.scans.flatMap fun scan => scan.marks.map Mark.item).mergeSort ScanItem.order
    checks
    warnings := inquiry.warnings ++ walkWarnings ++ run.scans.flatMap FileScan.warnings ++
      (← get).sightings.warnings }

end ScanJob

/-- Scan a repository. Settings that cannot be used and roots that do not exist fail before any file
is touched. -/
def scanRepository (repo : Location) (settings : Settings) (options : ScanRequest) :
    Work ScanReport := do
  let job ← ScanJob.start repo settings options
  job.run

end TodoTracker
