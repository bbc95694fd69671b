import TodoTracker.Proofs.Task.Unsaved

/-!
# What the calls of the task store leave alone

A call of the store changes its document, the files and the number of calls. Whatever holds of the
rest of a workspace holds after any call too, whether the call succeeds or not.
-/

set_option autoImplicit false

namespace TodoTracker

open Work

/-- The property is about what is no document, no file and no number of calls. -/
def Workspace.Elsewhere (P : Workspace → Prop) : Prop :=
  ∀ (w : Workspace) (disk : Disk) (calls : Nat) (document : Document),
    P w → P { w with disk, calls, store := { w.store with document } }

namespace Tasks

variable {P : Workspace → Prop} {w : Workspace} (helsewhere : Workspace.Elsewhere P)
include helsewhere

theorem kept_enter (call : StoreCall) (hw : P w) :
    GuardedAt P (fun _ => True) (enter call) w := by
  have hcalled : P { w with calls := w.calls + 1 } := helsewhere w w.disk _ w.store.document hw
  exact .of_run (run_enter call w) (by split <;> exact hcalled) fun _ _ => trivial

theorem kept_save (hw : P w) : GuardedAt P (fun _ => True) save w := by
  have hkept : ∀ disk document,
      P { w with disk, store := { w.store with document } } := fun disk document =>
    helsewhere w disk w.calls document hw
  refine .bindGet ?_
  split
  · exact .pure _ hw
  · refine GuardedAt.tryCatch ?_ fun e v (_ : True) hv => ?_
    · refine (GuardedAt.onDisk (hkept _ w.store.document) fun _ _ => trivial).bind
        fun _ v hmake hv => ?_
      obtain ⟨-, rfl⟩ := yields_onDisk.1 hmake
      refine guarded_bindDocument (.bindGet ?_)
      refine (GuardedAt.ofExcept hv fun _ _ => trivial).bind fun stamped u hask hu => ?_
      obtain ⟨-, rfl⟩ := yields_ask.1 hask
      refine (GuardedAt.modify _ (hkept _ stamped)).bind fun _ t hset _ => ?_
      obtain rfl := yields_modify.1 hset
      exact guarded_bindDocument (.onDisk (hkept _ stamped) fun _ _ => trivial)
    · split <;> exact .throw hv trivial

theorem kept_holding (document : Document) (hw : P w) : P (holding w document) :=
  helsewhere w w.disk w.calls document hw

theorem kept_append (key : Text) (anchor : Anchor) (hw : P w) :
    GuardedAt P (fun _ => True) (append key anchor) w := by
  refine (kept_enter helsewhere .append hw).andThen fun _ v hv => ?_
  refine guarded_bindDocument (.bindGet ?_)
  refine (GuardedAt.ofExcept hv fun _ _ => trivial).bind fun answer u hanswer _ => ?_
  obtain ⟨-, rfl⟩ := yields_ofExcept.1 hanswer
  split
  · exact .pure _ hv
  · rename_i document
    refine (GuardedAt.modify _ (kept_holding helsewhere document hv)).andThen fun _ t ht => ?_
    exact kept_save helsewhere ht

theorem kept_remove (key : Text) (anchor : Anchor) (hw : P w) :
    GuardedAt P (fun _ => True) (remove key anchor) w := by
  refine (kept_enter helsewhere .remove hw).andThen fun _ v hv => ?_
  refine guarded_bindDocument (.bindGet ?_)
  refine (GuardedAt.ofExcept hv fun _ _ => trivial).bind fun answer u hanswer _ => ?_
  obtain ⟨-, rfl⟩ := yields_ask.1 hanswer
  split
  · exact .pure _ hv
  · rename_i document
    refine (GuardedAt.modify _ (kept_holding helsewhere document hv)).andThen fun _ t ht => ?_
    exact (kept_save helsewhere ht).andThen fun _ _ hu => .pure _ hu

end Tasks

end TodoTracker
