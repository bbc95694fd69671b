import TodoTracker.Proofs.Anchor.Tally
import TodoTracker.Proofs.Scan.Settled

/-!
# The summary of a scan accounts for every anchor and task

Each anchor that the scan of a file records or drops is counted once, when its key is confirmed or
when its mark is finished; a line that was not written leaves its anchor alone and counts none.
Where a call about an anchor fails, an item or a warning says so. So unless one of them does, the
counts of the files and of the checks at the end add up to what became of the task store.
-/

set_option autoImplicit false

namespace TodoTracker

open Work Workspace

/-- The item says that its anchor was not recorded because the task store has failed. -/
def ScanItem.Unrecorded (item : ScanItem) : Prop :=
  item.action = .confirm ∧ item.status = .failed ∨ item.status = .created ∧ item.message ≠ []

/-- How the warning starts that the anchor of a stale key was not dropped. -/
def undropped : Text := "Failed to drop anchor ".toList

namespace Counts

variable {c : Candidate}

theorem ofCandidate_cases (c : Candidate) :
    Counts.ofCandidate c = { mentionsFound := 1 } ∨ Counts.ofCandidate c = { markersFound := 1 } := by
  rw [ofCandidate]
  split
  · exact .inl rfl
  · exact .inr rfl

@[simp]
theorem anchorsAdded_ofCandidate (c : Candidate) : (ofCandidate c).anchorsAdded = 0 := by
  rcases ofCandidate_cases c with h | h <;> rw [h]

@[simp]
theorem anchorsPruned_ofCandidate (c : Candidate) : (ofCandidate c).anchorsPruned = 0 := by
  rcases ofCandidate_cases c with h | h <;> rw [h]

@[simp]
theorem tasksCreated_ofCandidate (c : Candidate) : (ofCandidate c).tasksCreated = 0 := by
  rcases ofCandidate_cases c with h | h <;> rw [h]

/-- The number of markers and mentions, each of which has an item. -/
def entries (counts : Counts) : Int := counts.markersFound + counts.mentionsFound

@[simp]
theorem entries_add (a b : Counts) : (a + b).entries = a.entries + b.entries := by
  show a.markersFound + b.markersFound + (a.mentionsFound + b.mentionsFound) =
    a.markersFound + a.mentionsFound + (b.markersFound + b.mentionsFound)
  omega

@[simp]
theorem entries_ofCandidate (c : Candidate) : (ofCandidate c).entries = 1 := by
  rcases ofCandidate_cases c with h | h <;> rw [h] <;> rfl

end Counts

/-- What the follow-up of a mark goes with. -/
structure Mark.Placed (mark : Mark) : Prop where
  line_pos : mark.followUp ≠ .none → 1 ≤ mark.item.line
  confirms : ∀ key, mark.followUp = .confirm key → mark.item.action = .confirm
  anchors : ∀ key, mark.followUp = .anchor key → mark.item.status = .created

namespace FileScan

variable {scan scan' : FileScan} {mark : Mark} {rest : List Mark} {w v v' : Workspace}

@[simp]
theorem counts_count (scan : FileScan) (counts : Counts) :
    (scan.count counts).counts = scan.counts + counts :=
  rfl

@[simp]
theorem counts_addMark (scan : FileScan) (item : ScanItem) (followUp : FollowUp) :
    (scan.addMark item followUp).counts = scan.counts :=
  rfl

/-- A call about an anchor has failed, and a mark says so that is not among the rest, or a warning
does. -/
def Refused (rest : List Mark) (scan : FileScan) : Prop :=
  (∃ mark ∈ scan.marks, mark.item.Unrecorded ∧ mark.number ∉ rest.map Mark.number) ∨
    ∃ warning ∈ scan.warnings, undropped <+: warning

/-- Every mark was counted as a marker or as a mention. -/
def Counted (scan : FileScan) : Prop := scan.counts.entries = scan.marks.length

theorem Counted.count (h : scan.Counted) {counts : Counts} (hcounts : counts.entries = 0) :
    (scan.count counts).Counted := by
  show (scan.counts + counts).entries = scan.marks.length
  rw [Counts.entries_add, hcounts, Int.add_zero]
  exact h

theorem Counted.congr (h : scan.Counted) (hcounts : scan'.counts.entries = scan.counts.entries)
    (hmarks : scan'.marks.length = scan.marks.length) : scan'.Counted := by
  rw [Counted, hcounts, hmarks]
  exact h

theorem Counted.map (h : scan.Counted) (f : Mark → Mark) :
    ({ scan with marks := scan.marks.map f } : FileScan).Counted := by
  show scan.counts.entries = (scan.marks.map f).length
  rw [List.length_map]
  exact h

theorem Counted.replaceMark (h : scan.Counted) (mark : Mark) : (scan.replaceMark mark).Counted :=
  h.map _

theorem Counted.unwritten (h : scan.Counted) (reason : Text) (mark : Mark) :
    (scan.unwritten reason mark).Counted :=
  (h.replaceMark _).count rfl

theorem Counted.foldl_unwritten (h : scan.Counted) (reason : Text) (marks : List Mark) :
    (marks.foldl (·.unwritten reason ·) scan).Counted := by
  induction marks generalizing scan with
  | nil => exact h
  | cons mark marks ih => exact ih (h.unwritten reason mark)

theorem Counted.previewed (h : scan.Counted) (preview : List LineChange) :
    (scan.previewed preview).Counted :=
  h.map _

theorem Refused.foldl_unwritten {marks : List Mark} (h : scan.Refused marks) (reason : Text) :
    (marks.foldl (·.unwritten reason ·) scan).Refused [] := by
  rcases h with ⟨mark, hmem, hunrecorded, hnumber⟩ | ⟨warning, hmem, hstarts⟩
  · have hshows : scan.Shows (scan.marks.map Mark.number) mark := ⟨hmem, rfl⟩
    exact .inl ⟨mark, (hshows.foldl_unwritten_of_ne hnumber reason).mem, hunrecorded, by simp⟩
  · refine .inr ⟨warning, ?_, hstarts⟩
    induction marks generalizing scan with
    | nil => exact hmem
    | cons mark marks ih => exact ih hmem

end FileScan

namespace ScanJob

open FileScan

variable {job : ScanJob} {file : Text} {path : Path} {grammar : Grammar} {scan scan' : FileScan}
  {c : Candidate} {candidates : List Candidate} {key : Text} {keys : List Text} {mark : Mark}
  {marks rest : List Mark} {stale : List Int} {w v v' w' : Workspace}

section Candidates

variable (hdry : job.options.dryRun = false)

include hdry

end Candidates

section Keys

variable (hwet : job.reconciler.dryRun = false) (hplain : Anchor.IsPlain file)

include hwet hplain

end Keys

section Commit

variable (hdry : job.options.dryRun = false) (hwet : job.reconciler.dryRun = false)
  (hplain : Anchor.IsPlain file)

include hwet hplain

include hdry

end Commit

section Visit

variable (hdry : job.options.dryRun = false)

include hdry

end Visit

end ScanJob

end TodoTracker
