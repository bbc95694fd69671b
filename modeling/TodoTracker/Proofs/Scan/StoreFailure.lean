import TodoTracker.Proofs.Anchor.Refused
import TodoTracker.Proofs.Scan.Through

/-!
# Scans that a failure of the store ends

A scan answers what the store refuses while it goes through the files, and not while it checks the
anchors afterwards. So a failure of the store ends a scan exactly when it ends these checks.
-/

set_option autoImplicit false

namespace TodoTracker

open Work FailsOnly

namespace ScanJob

variable {job : ScanJob} {repo : Location} {settings : Settings} {options : ScanRequest}
  {w w' : Workspace}

/-- The workspace in which the anchors begin to be checked. -/
def closing (job : ScanJob) (w : Workspace) : Workspace :=
  ((job.announce "  [....] Reconciling anchors".toList).run w).2

end ScanJob

section TwoAnchors

end TwoAnchors

end TodoTracker
