import TodoTracker.Proofs.Workspace.Yields

/-!
# Work that only reads

Work is read-only when it leaves the files and the task store as they are, from every workspace and
also where it fails. The lemmas follow the ways in which work is composed.
-/

set_option autoImplicit false

namespace TodoTracker

/-- The files and the task store are the same in both workspaces. -/
structure Workspace.Untouched (w w' : Workspace) : Prop where
  disk : w'.disk = w.disk
  store : w'.store = w.store

namespace Workspace.Untouched

variable {w v u : Workspace}

theorem refl (w : Workspace) : w.Untouched w := ⟨rfl, rfl⟩

theorem trans (h : w.Untouched v) (h' : v.Untouched u) : w.Untouched u :=
  ⟨h'.disk.trans h.disk, h'.store.trans h.store⟩

end Workspace.Untouched

namespace Work

variable {α β : Type} {work : Work α}

/-- However it ends, the work changes neither files nor the task store. -/
def ReadOnly (work : Work α) : Prop := ∀ w : Workspace, w.Untouched (work.run w).2

namespace ReadOnly

theorem pure (a : α) : ReadOnly (Pure.pure a) := fun w => .refl w

theorem throw (e : Failure) : ReadOnly (MonadExcept.throw e : Work α) := fun w => .refl w

theorem get : ReadOnly get := fun w => .refl w

theorem modify {f : Workspace → Workspace} (h : ∀ w : Workspace, w.Untouched (f w)) :
    ReadOnly (modify f) := h

theorem bind {f : α → Work β} (h : ReadOnly work) (hf : ∀ a, ReadOnly (f a)) :
    ReadOnly (work >>= f) := by
  intro w
  have hw := h w
  rw [run_bind]
  rcases hrun : work.run w with ⟨e | a, v⟩ <;> rw [hrun] at hw
  · exact hw
  · exact hw.trans (hf a v)

theorem map (f : α → β) (h : ReadOnly work) : ReadOnly (f <$> work) := by
  rw [map_eq_pure_bind]
  exact h.bind fun a => pure (f a)

theorem ofExcept (answer : Except Failure α) : ReadOnly (ofExcept answer) := by
  cases answer with
  | error e => exact throw e
  | ok a => exact pure a

theorem look (f : FileTree → Except Failure α) : ReadOnly (look f) :=
  get.bind fun _ => ofExcept _

theorem tryCatch {handler : Failure → Work α} (h : ReadOnly work)
    (hhandler : ∀ e, ReadOnly (handler e)) : ReadOnly (tryCatch work handler) := by
  intro w
  have hw := h w
  rw [run_tryCatch]
  rcases hrun : work.run w with ⟨e | a, v⟩ <;> rw [hrun] at hw
  · exact hw.trans (hhandler e v)
  · exact hw

theorem attempt (h : ReadOnly work) : ReadOnly (attempt work) := by
  intro w
  rw [run_attempt]
  exact h w

theorem attemptFile (h : ReadOnly work) : ReadOnly (attemptFile work) := by
  refine (h.map _).tryCatch fun e => ?_
  split
  · exact pure _
  · exact pure _
  · exact throw _

theorem foldlM {f : β → α → Work β} (h : ∀ b a, ReadOnly (f b a)) (as : List α) (b : β) :
    ReadOnly (as.foldlM f b) := by
  induction as generalizing b with
  | nil => exact pure b
  | cons a as ih =>
    rw [List.foldlM_cons]
    exact (h b a).bind ih

theorem mapM {f : α → Work β} (h : ∀ a, ReadOnly (f a)) (as : List α) :
    ReadOnly (as.mapM f) := by
  induction as with
  | nil => exact pure []
  | cons a as ih =>
    rw [List.mapM_cons]
    exact (h a).bind fun b => ih.bind fun bs => pure _

end ReadOnly

end Work

end TodoTracker
