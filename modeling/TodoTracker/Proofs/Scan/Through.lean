import TodoTracker.Proofs.Edit.AnyText
import TodoTracker.Proofs.Marker.KeyPlace
import TodoTracker.Proofs.Scan.Edits
import TodoTracker.Proofs.Scan.Guarded
import TodoTracker.Proofs.Scan.Run
import TodoTracker.Proofs.Task.Sound

/-!
# Getting through the files

While a scan goes through the files it answers every failure of the store. When the documents of the
store are sound it answers every failure of a single file too, so it gets through all that the walk
comes to: only the walk itself, or a file that cannot be resolved, can stop it.
-/

set_option autoImplicit false

namespace TodoTracker

open Work FailsOnly

theorem EditQueue.foreign_apply (queue : EditQueue) (text : Text) : Foreign (queue.apply text) := by
  refine FailsOnly.foldlM (fun edit result => ?_) _ _
  have hposition : ∀ number size, Foreign (LineEdit.position number size) := fun _ _ =>
    .ite (fun _ => .ok _) fun _ => .ite (fun _ => .ok _) fun _ => .ite (fun _ => .ok _) fun _ =>
      .error rfl
  have hchange : Foreign edit.change := by
    rw [LineEdit.change]
    split
    · exact .ok _
    · exact .error rfl
  refine (hposition _ _).bind fun place _ => ?_
  split
  · exact .ok _
  · split
    · exact .ok _
    · split
      · exact .ok _
      · exact hchange.bind fun change _ => .ite (fun _ => .ok _) fun _ => .ok _

namespace ScanJob

variable {job : ScanJob} {K : Text → Prop} {file : Text} {path : Path} {grammar : Grammar}
  {w w' : Workspace}

theorem anchorsGuarded_sound (job : ScanJob) (file : Text) (changes : List Change) :
    job.AnchorsGuarded file K (Workspace.Sound K changes) fun e => e.isStore = true where
  confirm key hkey line _ hw :=
    (job.reconciler.guarded_confirm key ⟨file, line⟩ hw).mono fun _ he => he hkey
  remove key hkey line _ hw :=
    (Tasks.guarded_remove key ⟨file, line⟩ hw).mono fun _ he => he hkey

theorem writeKeeps_sound (path : Path) (changes : List Change) :
    WriteKeeps path (Workspace.Sound K changes) :=
  fun _ _ _ hw _ => ⟨hw.document, hw.path, hw.changes⟩

end ScanJob

end TodoTracker
