import TodoTracker.Proofs.Marker.KeyPlace
import TodoTracker.Proofs.Scan.Quiet
import TodoTracker.Proofs.Scan.Reread

/-!
# Scanning again

A scan that creates tasks writes their keys, and a second scan then finds nothing to do: it creates
no task, writes no file, and keeps the anchors when they are settled. This is so when the keys can be
read back where they were written, and the second scan reads the files as the first one has left
them.
-/

set_option autoImplicit false

namespace TodoTracker

open Work

namespace ScanJob

variable {job : ScanJob} {path : Path} {run : ScanRun} {w w₁ w₂ : Workspace}
  {report report' : ScanReport}

/-- A scan with the default signal words, keys and format of keys. It writes files and knows of no
renames, and leaves anchors of missing files alone. -/
structure ByDefault (job : ScanJob) : Prop where
  scanner : ∃ patterns mentions, compilePatterns ({} : Settings).ticketPatterns = .ok patterns ∧
    job.scanner = .make ({} : Settings).signalWords patterns mentions
  format : job.settings.insertionFormat = ({} : Settings).insertionFormat
  reanchor : job.options.reanchor = false
  dryRun : job.options.dryRun = false
  wet : job.reconciler.dryRun = false
  renames : job.reconciler.renames = []

theorem ByDefault.steady (h : job.ByDefault) {grammar : Grammar}
    (hgrammar : Grammar.ofPath? path = some grammar) :
    job.scanner.Steady grammar ∧ Signal.Solid job.scanner.words := by
  obtain ⟨patterns, mentions, hpatterns, hscanner⟩ := h.scanner
  rw [hscanner]
  exact ⟨Scanner.steady_default (Grammar.mem_registry_of_ofPath? hgrammar) hpatterns mentions,
    Signal.solid_prepare _⟩

section Lone

/-- What a visit does about the candidates of a file. -/
def settle (job : ScanJob) (file : Text) (path : Path) (candidates : List Candidate) :
    Work FileScan := do
  let scan ← candidates.foldlM (job.scanCandidate file path)
    (({} : FileScan).count { filesScanned := 1 })
  let scan ← scan.sightedKeys.foldlM (job.confirmKey file) scan
  job.commit file path scan

end Lone

end ScanJob

end TodoTracker
