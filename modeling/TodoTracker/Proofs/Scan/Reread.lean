import TodoTracker.Proofs.Scan.Creation

/-!
# A file that is read again after its keys were written

When the keys of new tasks are written into a file, and a scan then reads the file again, each marker
that asked for a task has the key of its task, and all other markers are as they were. So no marker
asks for an edit any more. This needs that the new keys are read as keys, that the lines of these
markers do not hold them already, and that there are no attributes to be taken out.
-/

set_option autoImplicit false

namespace TodoTracker

open Work

namespace Splice

end Splice

namespace ScanJob

variable {job : ScanJob} {file : Text} {path : Path} {scan scan' : FileScan} {c : Candidate}
  {w w' : Workspace} {candidates : List Candidate} {known known' : Text → Bool} {words : List Text}

/-- The keys that have come to be those of tasks can be read back behind signal words. -/
def NewKeys (words : List Text) (known known' : Text → Bool) : Prop :=
  ∀ key, known key = false → known' key = true →
    ∃ t : TicketKey, t.text = key ∧ t.project ∉ words

/-- Markers for which keys can be written so that they are read back. -/
structure Writable (job : ScanJob) (known known' : Text → Bool) (candidates : List Candidate) :
    Prop where
  /-- No marker has a written key without a task. -/
  live : ∀ c ∈ candidates, job.actionOf known c ≠ .prune
  /-- A marker that asks for a task has no attributes. -/
  plain : ∀ c ∈ candidates, job.actionOf known c = .create →
    Splice.attributeRemovals c.text c.signalStop c.segmentStop = []
  /-- The line of a marker that asks for a task holds no new key. -/
  fresh : ∀ c ∈ candidates, job.actionOf known c = .create →
    ∀ key, known key = false → known' key = true → KeyToken.occursIn c.text key = false

section Between

variable {v v' : Workspace}

theorem NewKeys.between (h : NewKeys words w.knows w'.knows) (hv : w.KeepsKeys v)
    (hv' : v'.KeepsKeys w') : NewKeys words v.knows v'.knows :=
  fun key hkey hkey' => h key (hv.unknown hkey) (hv' key hkey')

theorem Writable.between (h : job.Writable w.knows w'.knows candidates) (hv : w.KeepsKeys v)
    (hv' : v'.KeepsKeys w') : job.Writable v.knows v'.knows candidates where
  live c hc haction := h.live c hc (prune_of_keepsKeys hv haction)
  plain c hc haction := h.plain c hc (create_of_keepsKeys hv haction)
  fresh c hc haction key hkey hkey' :=
    h.fresh c hc (create_of_keepsKeys hv haction) key (hv.unknown hkey) (hv' key hkey')

end Between

section Opened

variable {pick : Candidate → Option Text} {keys : Candidate → Option TicketKey}

end Opened

section Commit

end Commit

end ScanJob

end TodoTracker
