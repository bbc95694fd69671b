import TodoTracker.Proofs.Scan.Creation
import TodoTracker.Proofs.Scan.Guarded
import TodoTracker.Proofs.Scan.Run
import TodoTracker.Proofs.Task.Created

/-!
# No key is lost

A call of the task store keeps every key of a task, whether it succeeds or not: a task that could not
be saved is taken back, and its key was free. So the keys of tasks only become more while files are
scanned and anchors are checked.
-/

set_option autoImplicit false

namespace TodoTracker

open Work

variable {w v v' : Workspace}

theorem Workspace.keepsKeys_of_subset
    (h : w.store.document.tasks.keys ⊆ v.store.document.tasks.keys) : w.KeepsKeys v := by
  intro key hkey
  rw [knows_eq_true_iff] at hkey ⊢
  exact h hkey

namespace Tasks

theorem Called.keepsKeys {key : Text} (h : Called key w v) : w.KeepsKeys v :=
  Workspace.keepsKeys_of_subset h.keys

theorem keepsKeys_remove (key : Text) (anchor : Anchor) (hv : w.KeepsKeys v) :
    GuardedAt w.KeepsKeys (fun _ => True) (remove key anchor) v :=
  (called_remove key anchor v).imp (fun _ hu => hv.trans hu.keepsKeys) fun _ _ => trivial

theorem keepsKeys_enter (call : StoreCall) (hv : w.KeepsKeys v) :
    GuardedAt w.KeepsKeys (fun _ => True) (enter call) v := by
  refine ⟨?_, fun _ _ => trivial⟩
  rw [run_enter]
  split <;> exact hv

theorem keepsKeys_has (key : Text) (hv : w.KeepsKeys v) :
    GuardedAt w.KeepsKeys (fun _ => True) (has key) v :=
  (keepsKeys_enter .lookUp hv).andThen fun _ _ hu => guarded_bindDocument (.pure _ hu)

theorem keepsKeys_create (fields : Fields Json) (hv : w.KeepsKeys v) :
    GuardedAt w.KeepsKeys (fun _ => True) (create fields) v := by
  refine (keepsKeys_enter .create hv).andThen fun _ u hu => .bindGet ?_
  refine (GuardedAt.ofExcept hu fun _ _ => trivial).bind fun minted u hask hu => ?_
  obtain ⟨hmint, rfl⟩ := yields_ask.1 hask
  obtain ⟨hfree, htasks⟩ := Document.mint_eq_ok hmint
  have hput : ∀ (t : Workspace) (task : Json),
      t.store.document.tasks = (minted.2.put minted.1 task).tasks → w.KeepsKeys t := by
    refine fun t task ht => hu.trans (Workspace.keepsKeys_of_subset fun key hkey => ?_)
    rw [ht]
    exact TaskMap.mem_keys_insert.2 (.inr (htasks.symm ▸ hkey))
  refine (GuardedAt.modify _ (hput _ _ rfl)).bind fun _ t hset _ => ?_
  obtain rfl := yields_modify.1 hset
  refine GuardedAt.bind ⟨?_, fun _ _ => trivial⟩ fun answer s hsave hs => ?_
  · rw [run_attempt]
    exact hput _ _ (tasks_save _)
  split
  · refine guarded_bindDocument ((GuardedAt.modify _ (hu.trans ?_)).andThen
      fun _ _ ht => .throw ht trivial)
    refine Workspace.keepsKeys_of_subset fun key hkey => ?_
    dsimp only [Document.erase]
    rw [tasks_of_attempt_save hsave]
    dsimp only [Document.put]
    rw [htasks, TaskMap.erase_insert hfree]
    exact hkey
  · exact (GuardedAt.bindGet (.onDisk hs fun _ _ => trivial)).andThen fun _ _ ht => .pure _ ht

end Tasks

namespace Reconciler

variable {reconciler : Reconciler}

theorem keepsKeys_confirm (key : Text) (anchor : Anchor) (hv : w.KeepsKeys v) :
    GuardedAt w.KeepsKeys (fun _ => True) (reconciler.confirm key anchor) v :=
  (called_confirm key anchor v).imp (fun _ hu => hv.trans hu.keepsKeys) fun _ h => h

end Reconciler

namespace ScanJob

variable {job : ScanJob} {file : Text} {path : Path} {grammar : Grammar} {c : Candidate}
  {scan scan' : FileScan} {checks : List AnchorVerdict}

theorem anchorsGuarded_keepsKeys (job : ScanJob) (file : Text) (w : Workspace) :
    job.AnchorsGuarded file (fun _ => True) w.KeepsKeys fun _ => True where
  confirm key _ _ _ hv := Reconciler.keepsKeys_confirm key _ hv
  remove key _ _ _ hv := Tasks.keepsKeys_remove key _ hv

theorem callsGuarded_keepsKeys (job : ScanJob) (file : Text) (path : Path) (w : Workspace) :
    job.CallsGuarded file path (fun _ => True) w.KeepsKeys fun _ => True where
  toAnchorsGuarded := anchorsGuarded_keepsKeys job file w
  has key _ hv := Tasks.keepsKeys_has key hv
  create _ _ _ hv := Tasks.keepsKeys_create _ hv
  write _ _ _ hv _ := hv

theorem keepsKeys_of_scanCandidate (h : (job.scanCandidate file path scan c).Yields w scan' v) :
    w.KeepsKeys v :=
  ((callsGuarded_keepsKeys job file path w).scanCandidate (fun _ _ _ => trivial)
    (fun _ _ => trivial) c fun _ hkey => hkey).leads h

theorem keepsKeys_of_candidates {candidates : List Candidate}
    (h : (candidates.foldlM (job.scanCandidate file path) scan).Yields w scan' v) :
    w.KeepsKeys v :=
  foldlM_keeps (P := fun _ u => w.KeepsKeys u)
    (fun _ _ _ _ _ _ hu hstep => hu.trans (keepsKeys_of_scanCandidate hstep)) (fun _ hkey => hkey) h

theorem keepsKeys_of_confirmKeys {keys : List Text}
    (h : (keys.foldlM (job.confirmKey file) scan).Yields w scan' v) : w.KeepsKeys v :=
  (GuardedAt.foldlM (fun _ _ _ _ hu => (anchorsGuarded_keepsKeys job file w).confirmKey
    (fun _ _ _ => trivial) trivial hu) scan fun _ hkey => hkey).leads h

theorem keepsKeys_of_committed (hpath : path.hasNull = false)
    (h : (job.commit file path scan).Yields w scan' v) : w.KeepsKeys v :=
  ((anchorsGuarded_keepsKeys job file w).commit (fun _ _ _ => trivial)
    (fun _ _ _ hv _ => hv) hpath (fun _ _ => trivial) (fun _ _ _ _ => trivial)
    (fun _ _ _ => trivial) fun _ hkey => hkey).leads h

theorem keepsKeys_visitFile (job : ScanJob) (path : Path) (grammar : Grammar) (w : Workspace) :
    GuardedAt w.KeepsKeys (fun _ => True) (job.visitFile path grammar) w :=
  CallsGuarded.visitFile (fun _ _ _ => trivial)
    (fun file _ => callsGuarded_keepsKeys job file path w) (fun _ => trivial) (fun _ _ => trivial)
    (fun _ _ => trivial) (fun _ => ⟨fun _ _ => trivial, fun _ _ _ => trivial⟩) fun _ hkey => hkey

end ScanJob

end TodoTracker
