import Mathlib.Algebra.BigOperators.Group.List.Basic
import TodoTracker.Proofs.Task.Created
import TodoTracker.Scan.Item

/-!
# How many anchors and tasks there are

The anchors of a document are counted task by task. A call of the store changes the anchors of one
task only, so the sum changes by as much as that task does; creating a task adds one without
anchors. As long as no task has two anchors in a file, each call that succeeds is accounted for by
what is counted for it.
-/

set_option autoImplicit false

namespace TodoTracker

open Work

/-- Where numbers are changed at one key only, so is their sum. -/
theorem sum_map_change {keys : List Text} (hnodup : keys.Nodup) {f g : Text → Nat} {key : Text}
    (hmem : key ∈ keys) (hother : ∀ other, other ≠ key → g other = f other) :
    (keys.map g).sum + f key = (keys.map f).sum + g key := by
  induction keys with
  | nil => cases hmem
  | cons k keys ih =>
    obtain ⟨hnew, hnodup⟩ := List.nodup_cons.1 hnodup
    by_cases hkey : k = key
    · have hrest : keys.map g = keys.map f := by
        refine List.map_congr_left fun other hin => hother other ?_
        rintro rfl
        exact hnew (hkey ▸ hin)
      simp only [List.map_cons, List.sum_cons, hrest, hkey]
      omega
    · have hrest := ih hnodup (by simpa [Ne.symm hkey] using hmem)
      simp only [List.map_cons, List.sum_cons, hother k hkey]
      omega

namespace Counts

@[simp]
theorem anchorsAdded_add (a b : Counts) : (a + b).anchorsAdded = a.anchorsAdded + b.anchorsAdded :=
  rfl

@[simp]
theorem anchorsPruned_add (a b : Counts) :
    (a + b).anchorsPruned = a.anchorsPruned + b.anchorsPruned :=
  rfl

@[simp]
theorem tasksCreated_add (a b : Counts) : (a + b).tasksCreated = a.tasksCreated + b.tasksCreated :=
  rfl

end Counts

namespace Workspace

variable {w v u : Workspace} {counts counts' : Counts} {key : Text}

/-- The number of anchors of a task. References that cannot be gone through have none. -/
def anchorsOf (w : Workspace) (key : Text) : Nat := ((w.anchors key).toOption.getD []).length

/-- The number of recorded anchors, over all tasks. -/
def anchorCount (w : Workspace) : Nat := (w.store.document.tasks.keys.map w.anchorsOf).sum

def taskCount (w : Workspace) : Nat := w.store.document.tasks.keys.length

/-- Every task has at most one anchor in each file. -/
def OnePerFile (w : Workspace) : Prop :=
  ∀ key as, w.anchors key = .ok as → (as.map Anchor.file).Nodup

/-- The counts say how many anchors and tasks have come and gone. -/
structure Accounts (w : Workspace) (counts : Counts) (v : Workspace) : Prop where
  anchors : (v.anchorCount : Int) = w.anchorCount + counts.anchorsAdded - counts.anchorsPruned
  tasks : (v.taskCount : Int) = w.taskCount + counts.tasksCreated
  onePerFile : v.OnePerFile

theorem anchorsOf_eq {as : List Anchor} (h : w.anchors key = .ok as) :
    w.anchorsOf key = as.length := by
  rw [anchorsOf, h]
  rfl

theorem OnePerFile.congr (h : w.OnePerFile)
    (htasks : v.store.document.tasks = w.store.document.tasks) : v.OnePerFile := by
  intro key as has
  rw [anchors, Document.anchors_congr htasks] at has
  exact h key as has

theorem accounts_of_tasks (hone : w.OnePerFile)
    (htasks : v.store.document.tasks = w.store.document.tasks) (hadded : counts.anchorsAdded = 0)
    (hpruned : counts.anchorsPruned = 0) (hcreated : counts.tasksCreated = 0) :
    w.Accounts counts v := by
  have hcount : v.anchorCount = w.anchorCount := by
    have hall : v.anchorsOf = w.anchorsOf := by
      funext key
      rw [anchorsOf, anchorsOf, anchors, anchors, Document.anchors_congr htasks]
    rw [anchorCount, anchorCount, hall, htasks]
  refine ⟨?_, ?_, hone.congr htasks⟩
  · rw [hcount]
    omega
  · rw [taskCount, taskCount, htasks]
    omega

theorem Accounts.refl (hone : w.OnePerFile) : w.Accounts {} w :=
  accounts_of_tasks hone rfl rfl rfl rfl

theorem Accounts.trans (h : w.Accounts counts v) (h' : v.Accounts counts' u) :
    w.Accounts (counts + counts') u := by
  obtain ⟨hanchors, htasks, -⟩ := h
  obtain ⟨hanchors', htasks', hone⟩ := h'
  refine ⟨?_, ?_, hone⟩
  · rw [Counts.anchorsAdded_add, Counts.anchorsPruned_add]
    omega
  · rw [Counts.tasksCreated_add]
    omega

/-- Only what is counted of anchors and tasks matters. -/
theorem Accounts.congr (h : w.Accounts counts v)
    (hadded : counts'.anchorsAdded = counts.anchorsAdded)
    (hpruned : counts'.anchorsPruned = counts.anchorsPruned)
    (hcreated : counts'.tasksCreated = counts.tasksCreated) : w.Accounts counts' v :=
  ⟨by rw [hadded, hpruned]; exact h.anchors, by rw [hcreated]; exact h.tasks, h.onePerFile⟩

end Workspace

namespace Tasks

open Workspace

variable {key : Text} {anchor : Anchor} {as as' : List Anchor} {counts : Counts}
  {w w' : Workspace}

/-- A call about one key changes the number of anchors by as much as that of the key. -/
theorem Touched.anchorCount (h : Touched key w w') (has : w.anchors key = .ok as)
    (has' : w'.anchors key = .ok as') :
    w'.anchorCount + as.length = w.anchorCount + as'.length := by
  have hother : ∀ other, other ≠ key → w'.anchorsOf other = w.anchorsOf other := by
    intro other hne
    rw [anchorsOf, anchorsOf, h.others other hne]
  have hkeys := h.onward.saved.keys
  rw [Workspace.anchorCount, Workspace.anchorCount, hkeys]
  by_cases hmem : key ∈ w.store.document.tasks.keys
  · have hsum := sum_map_change w.store.document.tasks.nodup hmem hother
    rwa [anchorsOf_eq has, anchorsOf_eq has'] at hsum
  · have hnone : ∀ {v : Workspace} {bs : List Anchor}, key ∉ v.store.document.tasks.keys →
        v.anchors key = .ok bs → bs = [] := by
      intro v bs habsent hbs
      rw [Workspace.anchors, Document.anchors, TaskMap.task?_eq_none habsent] at hbs
      cases hbs
      rfl
    rw [hnone hmem has, hnone (hkeys ▸ hmem) has']
    congr 2
    refine List.map_congr_left fun other hmem' => hother other ?_
    rintro rfl
    exact hmem hmem'

theorem nodup_of_files (h : (as.map Anchor.file).Nodup) : as.Nodup := List.Nodup.of_map _ h

end Tasks

end TodoTracker
