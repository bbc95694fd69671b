import TodoTracker.Proofs.Scan.File

/-!
# Counts that only grow

What a scan has done to tasks and files, and what it failed to do, is counted and never taken back:
no step of the scan of a file makes one of these counts smaller.
-/

set_option autoImplicit false

namespace TodoTracker

namespace Counts

/-- The counts of created tasks, written files and failures are as large as they were or larger. -/
structure Grow (a b : Counts) : Prop where
  tasksCreated : a.tasksCreated ≤ b.tasksCreated
  filesWritten : a.filesWritten ≤ b.filesWritten
  unresolved : a.unresolved ≤ b.unresolved
  writeFailures : a.writeFailures ≤ b.writeFailures

/-- Something that was asked for was not done. -/
def Failed (counts : Counts) : Prop := 0 < counts.unresolved ∨ 0 < counts.writeFailures

/-- A task was created or a file was written. -/
def Changed (counts : Counts) : Prop := 0 < counts.tasksCreated ∨ 0 < counts.filesWritten

variable {a b c : Counts}

theorem Failed.grow (h : a.Failed) (hgrow : Grow a b) : b.Failed :=
  h.imp (fun h => Int.lt_of_lt_of_le h hgrow.unresolved)
    (fun h => Int.lt_of_lt_of_le h hgrow.writeFailures)

namespace Grow

theorem refl (a : Counts) : Grow a a :=
  ⟨Int.le_refl _, Int.le_refl _, Int.le_refl _, Int.le_refl _⟩

theorem trans (h : Grow a b) (h' : Grow b c) : Grow a c :=
  ⟨Int.le_trans h.tasksCreated h'.tasksCreated, Int.le_trans h.filesWritten h'.filesWritten,
    Int.le_trans h.unresolved h'.unresolved, Int.le_trans h.writeFailures h'.writeFailures⟩

theorem add (a : Counts) (h : Grow {} b) : Grow a (a + b) :=
  ⟨Int.le_add_of_nonneg_right h.tasksCreated, Int.le_add_of_nonneg_right h.filesWritten,
    Int.le_add_of_nonneg_right h.unresolved, Int.le_add_of_nonneg_right h.writeFailures⟩

end Grow

end Counts

namespace FileScan

variable {scan : FileScan} {counts : Counts}

/-- No count that only grows is smaller in the second scan. -/
def Grows (scan scan' : FileScan) : Prop := scan.counts.Grow scan'.counts

theorem grows_count (scan : FileScan) (h : Counts.Grow {} counts) :
    scan.Grows (scan.count counts) :=
  .add scan.counts h

theorem grow_ofCandidate (candidate : Candidate) : Counts.Grow {} (.ofCandidate candidate) := by
  rw [Counts.ofCandidate]
  split <;> exact ⟨Int.le_refl _, Int.le_refl _, Int.le_refl _, Int.le_refl _⟩

theorem grows_confirmed (scan : FileScan) (key : Text) (best : Mark) (result : Confirmation) :
    scan.Grows (scan.confirmed key best result) :=
  .add scan.counts ⟨Int.le_refl _, Int.le_refl _, Int.le_refl _, Int.le_refl _⟩

theorem grows_unconfirmed (scan : FileScan) (key message : Text) :
    scan.Grows (scan.unconfirmed key message) :=
  .add scan.counts ⟨Int.le_refl _, Int.le_refl _, Int.natCast_nonneg _, Int.le_refl _⟩

theorem grows_unwritten (scan : FileScan) (reason : Text) (mark : Mark) :
    scan.Grows (scan.unwritten reason mark) :=
  .add scan.counts ⟨Int.le_refl _, Int.le_refl _, Int.zero_le_ofNat 1, Int.le_refl _⟩

theorem grows_foldl_unwritten (scan : FileScan) (reason : Text) (marks : List Mark) :
    scan.Grows (marks.foldl (·.unwritten reason ·) scan) := by
  induction marks generalizing scan with
  | nil => exact .refl _
  | cons mark marks ih => exact (grows_unwritten scan reason mark).trans (ih _)

end FileScan

namespace ScanJob

open FileScan Work

variable {job : ScanJob} {file : Text} {path : Path} {scan scan' : FileScan} {c : Candidate}
  {w w' : Workspace}

/-- Opening a task counts as a created task or as a failure. -/
theorem grows_of_openTask {item : ScanItem}
    (h : (job.openTask file path scan c item).Yields w scan' w') :
    scan.Grows scan' ∧ (Counts.Grow {} scan.counts → scan'.counts.Changed ∨ scan'.counts.Failed) := by
  rw [openTask, yields_bind] at h
  obtain ⟨answer, w₁, -, h⟩ := h
  cases answer with
  | error e =>
    obtain ⟨rfl, -⟩ := yields_pure.1 h
    exact ⟨grows_count scan ⟨Int.le_refl _, Int.le_refl _, Int.zero_le_ofNat 1, Int.le_refl _⟩,
      fun hstart => .inr (.inl (Int.lt_add_one_of_le hstart.unresolved))⟩
  | ok key =>
    obtain ⟨edits, w₂, -, h⟩ := yields_bind.1 h
    obtain ⟨rfl, -⟩ := yields_pure.1 h
    exact ⟨grows_count { scan with edits }
        ⟨Int.zero_le_ofNat 1, Int.le_refl _, Int.le_refl _, Int.le_refl _⟩,
      fun hstart => .inl (.inl (Int.lt_add_one_of_le hstart.tasksCreated))⟩

theorem Scanned.grows (h : Scanned job file path scan c w scan' w') : scan.Grows scan' := by
  have hcount := grows_count scan (grow_ofCandidate c)
  cases h with
  | refused =>
    exact hcount.trans (grows_count _
      ⟨Int.le_refl _, Int.le_refl _, Int.zero_le_ofNat 1, Int.le_refl _⟩)
  | opened _ h => exact hcount.trans (grows_of_openTask h).1
  | pruned =>
    exact hcount.trans (.add _ ⟨Int.le_refl _, Int.le_refl _, Int.le_refl _, Int.le_refl _⟩)
  | noted => exact hcount

theorem grows_of_confirmKey {key : Text}
    (h : (job.confirmKey file scan key).Yields w scan' w') : scan.Grows scan' := by
  rcases yields_confirmKey h with ⟨-, rfl, -⟩ | ⟨best, -, ⟨message, rfl⟩ | ⟨result, -, rfl⟩⟩
  · exact .refl _
  · exact grows_unconfirmed ..
  · exact grows_confirmed ..

theorem grows_of_finish {stale : List Int} {mark : Mark}
    (h : (job.finish file stale scan mark).Yields w scan' w') : scan.Grows scan' := by
  cases finished_of_yields h with
  | left => exact grows_unwritten ..
  | anchored => exact .add _ ⟨Int.le_refl _, Int.le_refl _, Int.le_refl _, Int.le_refl _⟩
  | unanchored => exact .add _ ⟨Int.le_refl _, Int.le_refl _, Int.zero_le_ofNat 1, Int.le_refl _⟩
  | dropped =>
    split
    · exact .add _ ⟨Int.le_refl _, Int.le_refl _, Int.le_refl _, Int.le_refl _⟩
    · exact .refl _
  | undropped => exact .refl _
  | idle => exact .refl _

theorem grows_of_foldlM_finish {stale : List Int} {marks : List Mark}
    (h : (marks.foldlM (job.finish file stale) scan).Yields w scan' w') : scan.Grows scan' :=
  foldlM_keeps (P := fun scan' _ => scan.Grows scan')
    (fun _ _ _ _ _ _ hgrows hstep => hgrows.trans (grows_of_finish hstep)) (.refl _) h

theorem grows_of_commit (h : (job.commit file path scan).Yields w scan' w') :
    scan.Grows scan' := by
  cases hdry : job.options.dryRun with
  | true =>
    rw [commit, yields_bind] at h
    obtain ⟨preview, w₁, -, h⟩ := h
    rw [hdry, if_pos rfl] at h
    obtain ⟨rfl, -⟩ := yields_pure.1 h
    exact .refl _
  | false =>
    obtain ⟨preview, -, ⟨_, reason, warning, -, rfl⟩ |
        ⟨result, v, written, -, hwritten, hfinish⟩⟩ := yields_commit hdry h
    · have hfailure : scan.Grows
          (((scan.previewed preview).warn warning).count { writeFailures := 1 }) :=
        grows_count _ ⟨Int.le_refl _, Int.le_refl _, Int.le_refl _, Int.zero_le_ofNat 1⟩
      exact hfailure.trans (grows_foldl_unwritten ..)
    · have hgrows : scan.Grows written := by
        rw [hwritten]
        split
        · exact .refl _
        · exact grows_count _ ⟨Int.le_refl _, Int.zero_le_ofNat 1, Int.le_refl _, Int.le_refl _⟩
      exact hgrows.trans (grows_of_foldlM_finish hfinish)

theorem grows_of_foldlM_scanCandidate {candidates : List Candidate}
    (h : (candidates.foldlM (job.scanCandidate file path) scan).Yields w scan' w') :
    scan.Grows scan' :=
  foldlM_keeps (P := fun scan' _ => scan.Grows scan')
    (fun _ _ _ _ _ _ hgrows hstep => hgrows.trans (scanned_of_yields hstep).grows) (.refl _) h

theorem grows_of_foldlM_confirmKey {keys : List Text}
    (h : (keys.foldlM (job.confirmKey file) scan).Yields w scan' w') : scan.Grows scan' :=
  foldlM_keeps (P := fun scan' _ => scan.Grows scan')
    (fun _ _ _ _ _ _ hgrows hstep => hgrows.trans (grows_of_confirmKey hstep)) (.refl _) h

/-- Scanning a file counts nothing negative. -/
theorem grow_of_visitFile {grammar : Grammar}
    (h : (job.visitFile path grammar).Yields w scan w') : Counts.Grow {} scan.counts := by
  obtain ⟨file, -, ⟨_, _, -, -, rfl⟩ | ⟨text, scan₁, scan₂, w₁, w₂, -, hscan, hsighted, hcommit⟩⟩ :=
    yields_visitFile h
  · exact ⟨Int.le_refl _, Int.le_refl _, Int.le_refl _, Int.le_refl _⟩
  · have hstart : Counts.Grow {} (({} : FileScan).count { filesScanned := 1 }).counts :=
      ⟨Int.le_refl _, Int.le_refl _, Int.le_refl _, Int.le_refl _⟩
    have hscanned := grows_of_foldlM_scanCandidate hscan
    have hconfirmed := grows_of_foldlM_confirmKey hsighted
    exact ((hstart.trans hscanned).trans hconfirmed).trans (grows_of_commit hcommit)

end ScanJob

end TodoTracker
