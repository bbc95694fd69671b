import TodoTracker.Proofs.Scan.Again
import TodoTracker.Proofs.Scan.Tally

/-!
# The summary of a run

The files of a run add up to its counts. Of the checks at the end only those that have dropped their
anchor count for anchors, so the report accounts for all of them, and each of its items was counted
as a marker or as a mention.
-/

set_option autoImplicit false

namespace TodoTracker

open Work Workspace

namespace Counts

variable {check : AnchorVerdict}

@[simp]
theorem anchorsAdded_ofCheck (check : AnchorVerdict) : (ofCheck check).anchorsAdded = 0 := by
  rw [ofCheck]
  split <;> rfl

@[simp]
theorem entries_ofCheck (check : AnchorVerdict) : (ofCheck check).entries = 0 := by
  rw [ofCheck]
  split <;> rfl

end Counts

namespace ScanRun

/-- The scan of some file has noted a failure of the task store. -/
def Refused (run : ScanRun) : Prop := ∃ scan ∈ run.scans, scan.Refused []

theorem Refused.append {run run' : ScanRun} {scan : FileScan} (h : run.Refused)
    (hscans : run'.scans = run.scans ++ [scan]) : run'.Refused := by
  obtain ⟨s, hmem, hrefused⟩ := h
  exact ⟨s, hscans ▸ List.mem_append_left _ hmem, hrefused⟩

end ScanRun

namespace ScanJob

variable {job : ScanJob} {path : Path} {run run' : ScanRun} {checks : List AnchorVerdict}
  {report : ScanReport} {w w' : Workspace}

section Visited

variable (hdry : job.options.dryRun = false)

include hdry

end Visited

section Run

variable (hwet : job.reconciler.dryRun = false) (hrenames : job.reconciler.renames = [])

include hwet hrenames

end Run

end ScanJob

end TodoTracker
