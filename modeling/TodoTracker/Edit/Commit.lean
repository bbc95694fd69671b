import TodoTracker.Edit.Queue
import TodoTracker.Workspace

/-!
# Committing edits

The edits of a file are committed with one write. Nothing is written when no line changes.
-/

set_option autoImplicit false

namespace TodoTracker.EditQueue

/-- Which edits a commit has applied, and which were stale. -/
structure Commit where
  applied : List Int
  stale : List Int
  deriving DecidableEq, Repr

/-- Make the queued edits in the file at `path`. -/
def commit (queue : EditQueue) (path : Path) : Work Commit := do
  if queue.edits.isEmpty then return ⟨[], []⟩
  let text ← Work.look (·.readText path)
  let result ← Work.ofExcept (queue.apply text)
  let written := Line.join result.lines
  if written ≠ text then Work.onDisk (·.write path written)
  return ⟨result.applied, result.stale⟩

end TodoTracker.EditQueue
