import TodoTracker.Proofs.Edit.Lines
import TodoTracker.Proofs.Edit.KeyInsertion
import TodoTracker.Proofs.Scan.Edits
import TodoTracker.Proofs.Scan.Visit
import TodoTracker.Proofs.Task.Minted

/-!
# The tasks that a file is given

Going through the candidates of a file creates a task for each marker that asks for one, and queues
the splices that write its key. No key of a task is lost, and a candidate that asks for no edit asks
for none later on, when more keys are those of tasks.
-/

set_option autoImplicit false

namespace TodoTracker

open Work

/-- Every key of a task stays one. -/
def Workspace.KeepsKeys (w w' : Workspace) : Prop :=
  ∀ key, w.knows key = true → w'.knows key = true

namespace Workspace.KeepsKeys

variable {w w' w'' : Workspace}

theorem of_eq (h : w'.knows = w.knows) : w.KeepsKeys w' := fun key hkey => by rwa [h]

theorem trans (h : w.KeepsKeys w') (h' : w'.KeepsKeys w'') : w.KeepsKeys w'' :=
  fun key hkey => h' key (h key hkey)

theorem unknown (h : w.KeepsKeys w') {key : Text} (hkey : w'.knows key = false) :
    w.knows key = false := by
  rw [← Bool.not_eq_true] at hkey ⊢
  exact fun hknown => hkey (h key hknown)

end Workspace.KeepsKeys

namespace ScanJob

variable {job : ScanJob} {file : Text} {path : Path} {scan scan' : FileScan} {c : Candidate}
  {w w' w'' : Workspace} {candidates : List Candidate}

theorem edits_withKey {key : Text} {known : Bool}
    (h : (Decision.withKey c job.policy key known).action.edits = true) : known = false := by
  cases known with
  | false => rfl
  | true =>
    rw [Decision.withKey, if_pos rfl] at h
    split at h <;> cases h

/-- A candidate that asks for an edit has asked for it while fewer keys were those of tasks. -/
theorem actionOf_of_keepsKeys (h : w.KeepsKeys w')
    (hedits : (job.actionOf w'.knows c).edits = true) :
    job.actionOf w.knows c = job.actionOf w'.knows c := by
  rw [actionOf, Decision.decide] at hedits ⊢
  rw [actionOf, Decision.decide]
  cases hkey : c.key with
  | none => rfl
  | some key =>
    rw [hkey] at hedits
    have hunknown := edits_withKey hedits
    dsimp only
    rw [hunknown, h.unknown hunknown]

theorem create_of_keepsKeys (h : w.KeepsKeys w') (haction : job.actionOf w'.knows c = .create) :
    job.actionOf w.knows c = .create :=
  (actionOf_of_keepsKeys h (by rw [haction]; rfl)).trans haction

theorem prune_of_keepsKeys (h : w.KeepsKeys w') (haction : job.actionOf w'.knows c = .prune) :
    job.actionOf w.knows c = .prune :=
  (actionOf_of_keepsKeys h (by rw [haction]; rfl)).trans haction

/-- The task of a marker was created, or the store has failed to do so. -/
theorem openTask_cases {item : ScanItem} (hdry : job.options.dryRun = false)
    (h : (job.openTask file path scan c item).Yields w scan' w') :
    (∃ e failed, (attempt (Tasks.create
        (Seed.ofAttributes (c.taskTitle file) c.attributes).fields)).Yields w (.error e) w' ∧
      failed.status = .failed ∧
      scan' = (scan.count { unresolved := 1 }).addMark failed .none) ∨
    ∃ key queue, (Tasks.create
        (Seed.ofAttributes (c.taskTitle file) c.attributes).fields).Yields w key w' ∧
      scan.edits.add path.text ⟨c.line, c.text, job.creationSplices c key⟩ = .ok queue ∧
      scan' = ({ scan with edits := queue }.count { tasksCreated := 1 }).addMark
        { item with taskKey := some key, status := .created } (.anchor key) := by
  rw [openTask, yields_bind] at h
  obtain ⟨answer, w₁, htake, h⟩ := h
  rw [takeKey, hdry, if_neg Bool.false_ne_true] at htake
  cases answer with
  | error e =>
    obtain ⟨rfl, rfl⟩ := yields_pure.1 h
    exact .inl ⟨e, _, htake, rfl, rfl⟩
  | ok key =>
    obtain ⟨queue, w₂, hadd, hdone⟩ := yields_bind.1 h
    obtain ⟨hqueue, rfl⟩ := yields_ofExcept.1 hadd
    obtain ⟨rfl, rfl⟩ := yields_pure.1 hdone
    rcases yields_attempt htake with ⟨_, heq, hcreate⟩ | ⟨e, he⟩
    · cases heq
      exact .inr ⟨key, queue, hcreate, hqueue, rfl⟩
    · cases he

end ScanJob

end TodoTracker
