import TodoTracker.Proofs.Scan.Again
import TodoTracker.Proofs.Scan.StoreFailure
import TodoTracker.Proofs.Workspace.ReadOnly

/-!
# Dry runs

A dry run asks the task store about keys and anchors and looks at files. It creates no task, records
and removes no anchor and writes no file, whatever else it is asked for and however it ends.
-/

set_option autoImplicit false

namespace TodoTracker

open Work

namespace Tasks

theorem readOnly_enter (call : StoreCall) : ReadOnly (enter call) := by
  intro w
  rw [run_enter]
  split <;> exact ⟨rfl, rfl⟩

theorem readOnly_document : ReadOnly document := ReadOnly.get.bind fun _ => .pure _

theorem readOnly_has (key : Text) : ReadOnly (has key) :=
  (readOnly_enter .lookUp).bind fun _ => readOnly_document.bind fun _ => .pure _

theorem readOnly_anchors (key : Text) : ReadOnly (anchors key) :=
  readOnly_document.bind fun _ => .ofExcept _

end Tasks

namespace Reconciler

variable {reconciler : Reconciler} (hdry : reconciler.dryRun = true)
include hdry

theorem readOnly_pruneFile (key : Text) (keep : Anchor) (anchors : List Anchor) :
    ReadOnly (reconciler.pruneFile key keep anchors) := by
  induction anchors with
  | nil => exact .pure _
  | cons anchor rest ih =>
    have hrest : ∀ pruned : Bool, ReadOnly (do
        let others ← reconciler.pruneFile key keep rest
        return others + pruned.toNat) := fun _ => ih.bind fun _ => .pure _
    rw [pruneFile]
    split
    · simpa only [hdry, if_true, pure_bind] using hrest true
    · simpa only [pure_bind] using hrest false

theorem readOnly_confirm (key : Text) (anchor : Anchor) :
    ReadOnly (reconciler.confirm key anchor) := by
  refine (ReadOnly.modify fun w => by exact ⟨rfl, rfl⟩).bind fun _ => ?_
  refine (Tasks.readOnly_anchors key).bind fun anchors => ?_
  refine (readOnly_pruneFile hdry key anchor anchors).bind fun pruned => ?_
  dsimp only
  rw [hdry, Bool.not_true, Bool.and_false]
  exact .pure _

end Reconciler

namespace ScanJob

variable {job : ScanJob} {file : Text} {path : Path}

theorem readOnly_decide (c : Candidate) : ReadOnly (job.decide c) := by
  rw [decide]
  split
  · exact .pure _
  · exact (Tasks.readOnly_has _).bind fun _ => .pure _

variable (hdry : job.options.dryRun = true)
include hdry

theorem readOnly_openTask (scan : FileScan) (c : Candidate) (item : ScanItem) :
    ReadOnly (job.openTask file path scan c item) := by
  rw [openTask, takeKey, if_pos hdry]
  exact (ReadOnly.ofExcept _).bind fun _ => .pure _

theorem readOnly_scanCandidate (scan : FileScan) (c : Candidate) :
    ReadOnly (job.scanCandidate file path scan c) := by
  refine (readOnly_decide c).attempt.bind fun answer => ?_
  split
  · exact .pure _
  · dsimp only
    split
    · exact readOnly_openTask hdry _ c _
    · exact .pure _
    · exact (ReadOnly.ofExcept _).bind fun _ => .pure _
    · exact .pure _

/-- The edits of a file are not committed. -/
theorem readOnly_commit (scan : FileScan) : ReadOnly (job.commit file path scan) := by
  refine (ReadOnly.ofExcept _).bind fun preview => ?_
  dsimp only
  rw [if_pos hdry]
  exact .pure _

variable (hdry' : job.reconciler.dryRun = true)
include hdry'

omit hdry in
theorem readOnly_confirmKey (scan : FileScan) (key : Text) :
    ReadOnly (job.confirmKey file scan key) := by
  rw [confirmKey]
  split
  · exact .pure _
  · refine (Reconciler.readOnly_confirm hdry' key _).attempt.bind fun answer => ?_
    split <;> exact .pure _

theorem readOnly_visitFile (path : Path) (grammar : Grammar) :
    ReadOnly (job.visitFile path grammar) := by
  refine (ReadOnly.look _).bind fun file => (ReadOnly.look _).attemptFile.bind fun answer => ?_
  split
  · exact .pure _
  · refine (ReadOnly.foldlM (readOnly_scanCandidate hdry) _ _).bind fun scan => ?_
    refine (ReadOnly.foldlM (readOnly_confirmKey hdry') _ _).bind fun scan => ?_
    exact readOnly_commit hdry scan

end ScanJob

end TodoTracker
