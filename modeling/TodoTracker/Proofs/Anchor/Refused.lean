import TodoTracker.Proofs.Task.Outcomes

/-!
# Upkeep that the store refuses

The anchors that a scan has not confirmed are checked without attempts. What ends these checks with
a failure of the store is a call that is refused, to record or to remove an anchor, or a document
that cannot be written; a reconciler that records nothing never meets one.
-/

set_option autoImplicit false

namespace TodoTracker

open Work FailsOnly

namespace Workspace

end Workspace

namespace Reconciler

variable {reconciler : Reconciler} {K : Text → Prop} {w v : Workspace} {key : Text}

end Reconciler

end TodoTracker
