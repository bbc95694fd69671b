import TodoTracker.Proofs.Anchor.Standing
import TodoTracker.Proofs.Edit.Committed
import TodoTracker.Proofs.Scan.Sighting
import TodoTracker.Proofs.Task.Outcomes

/-!
# What a visit of a file leaves

When none of its candidates asks for a task, a visit of a file confirms the keys that are sighted in
it, each at its last line, and changes no task otherwise; or else something has failed. When its
candidates ask for no edit either, the file is as it was.
-/

set_option autoImplicit false

namespace TodoTracker

open Work

/-- A workspace with another disk and another number of calls. -/
def Workspace.SameTasks (w w' : Workspace) : Prop :=
  ∃ disk calls, w' = { w with disk, calls }

theorem Workspace.SameTasks.refl (w : Workspace) : w.SameTasks w := ⟨w.disk, w.calls, rfl⟩

theorem Workspace.SameTasks.trans {w w' w'' : Workspace} (h : w.SameTasks w')
    (h' : w'.SameTasks w'') : w.SameTasks w'' := by
  obtain ⟨disk, calls, rfl⟩ := h
  obtain ⟨disk', calls', rfl⟩ := h'
  exact ⟨disk', calls', rfl⟩

theorem Workspace.SameTasks.knows {w w' : Workspace} (h : w.SameTasks w') :
    w'.knows = w.knows := by
  obtain ⟨disk, calls, rfl⟩ := h
  rfl

/-- A task that does not exist has no anchor to be removed. -/
theorem Tasks.run_remove_of_unknown {w : Workspace} {key : Text} (h : w.knows key = false)
    (anchor : Anchor) : ((Tasks.remove key anchor).run w).2 = { w with calls := w.calls + 1 } := by
  have hnone : w.store.document.tasks.task? key = none := by
    rw [← Bool.not_eq_true, Workspace.knows_eq_true_iff] at h
    exact TaskMap.task?_eq_none h
  have hremove : w.store.document.removeAnchor key anchor w.now = .ok none := by
    rw [Document.removeAnchor, hnone]
  rw [run_remove, hremove]
  cases w.refusals w.calls .remove <;> rfl

theorem FileScan.followUps_previewed (scan : FileScan) (preview : List LineChange) :
    (scan.previewed preview).followUps = scan.followUps := by
  rw [followUps, followUps, previewed]
  change List.map _ (List.map _ _) = _
  rw [List.map_map]
  congr 1
  funext mark
  dsimp only [Function.comp_apply]
  split
  · rfl
  · split <;> rfl

theorem FileScan.waits_of_mem_waiting {scan : FileScan} {mark : Mark} (h : mark ∈ scan.waiting) :
    mark.followUp ∈ scan.followUps ∧ mark.followUp.waits = true := by
  obtain ⟨hmem, hwaits⟩ := List.mem_filter.1 h
  exact ⟨List.mem_map_of_mem hmem, hwaits⟩

theorem EditQueue.sameTasks_of_commit {queue : EditQueue} {path : Path} {result : Commit}
    {w w' : Workspace} (h : (queue.commit path).Yields w result w') : w.SameTasks w' := by
  by_cases hne : queue.edits = []
  · rw [commit, if_pos (List.isEmpty_iff.2 hne)] at h
    obtain ⟨-, rfl⟩ := yields_pure.1 h
    exact .refl w
  · obtain ⟨-, -, -, -, hw⟩ := made_of_commit hne h
    exact ⟨_, _, hw⟩

namespace ScanJob

variable {job : ScanJob} {file : Text} {path : Path} {scan scan' : FileScan} {w w' : Workspace}

/-- Dropping the anchor of a stale key changes no task. -/
theorem sameTasks_of_finish {stale : List Int} {mark : Mark} {key : Text}
    (hdrop : mark.followUp = .drop key) (hunknown : w.knows key = false)
    (h : (job.finish file stale scan mark).Yields w scan' w') : w.SameTasks w' := by
  rw [finish] at h
  split at h
  · obtain ⟨-, rfl⟩ := yields_pure.1 h
    exact .refl w
  · rw [hdrop] at h
    obtain ⟨answer, w₁, hattempt, h⟩ := yields_bind.1 h
    have hremoved : w₁ = { w with calls := w.calls + 1 } := by
      rw [← Tasks.run_remove_of_unknown hunknown ⟨file, mark.item.line⟩, ← run_attempt, hattempt]
    have hw : w' = w₁ := by cases answer <;> exact (yields_pure.1 h).2.symm
    exact ⟨w.disk, _, hw.trans hremoved⟩

/-- When only stale keys wait, writing a file and dropping their anchors changes no task. -/
theorem sameTasks_of_commit (hdry : job.options.dryRun = false)
    (hgrow : Counts.Grow {} scan.counts) (hdrops : scan.OnlyDrops w.knows)
    (h : (job.commit file path scan).Yields w scan' w') :
    scan'.counts.Failed ∨ w.SameTasks w' := by
  obtain ⟨preview, -, ⟨_, reason, warning, -, rfl⟩ |
      ⟨result, v, written, hcommit, hwritten, hfinish⟩⟩ := yields_commit hdry h
  · refine .inl (Counts.Failed.grow (.inr ?_) (FileScan.grows_foldl_unwritten ..))
    exact Int.lt_add_one_of_le hgrow.writeFailures
  · have hv := EditQueue.sameTasks_of_commit hcommit
    have hfollow : written.followUps = scan.followUps := by
      rw [hwritten, ← scan.followUps_previewed preview]
      split <;> rfl
    refine .inr (hv.trans ?_)
    refine foldlM_keeps (P := fun _ u => v.SameTasks u) ?_ (.refl v) hfinish
    intro mark hmark s u s' u' hu hstep
    obtain ⟨hmem, hwaits⟩ := FileScan.waits_of_mem_waiting hmark
    obtain ⟨key, hdrop, hunknown⟩ := hdrops _ (hfollow ▸ hmem) hwaits
    rw [← (hv.trans hu).knows] at hunknown
    exact hu.trans (sameTasks_of_finish hdrop hunknown hstep)

theorem grow_start : Counts.Grow {} (({} : FileScan).count { filesScanned := 1 }).counts :=
  ⟨Int.le_refl _, Int.le_refl _, Int.le_refl _, Int.le_refl _⟩

section Visit

variable {grammar : Grammar} {text : Text}

end Visit

end ScanJob

end TodoTracker
