import TodoTracker.Proofs.Scan.LastSighting

/-!
# Cancelled scans

A scan asks whether to go on before it looks at a file, and again before it scans one. As long as it
is told to go on it does what it would do without asking, and from then on nothing more. So it has
scanned the files at the front of the walk for which it asked often enough, and no others.
-/

set_option autoImplicit false

namespace TodoTracker

open Work

namespace ScanJob

variable {job : ScanJob} {n : Nat} {path : Path}

/-- How often a scan asks whether to go on for a file that the walk yields. -/
def questionsOf (path : Path) : Nat := if (Grammar.ofPath? path).isSome then 2 else 1

/-- How often a scan asks whether to go on for files that the walk yields. -/
def questions (paths : List Path) : Nat := (paths.map questionsOf).sum

end ScanJob

end TodoTracker
