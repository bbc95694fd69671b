import TodoTracker.Proofs.Edit.Queue
import TodoTracker.Proofs.Workspace.Yields
import TodoTracker.Scan.File

/-!
# Work that no edit makes fail

Only queueing edits and making them can fail because of an edit. Reading and writing files, the
calls of the task store and the upkeep of anchors fail for reasons of their own.
-/

set_option autoImplicit false

namespace TodoTracker

open EditFree

namespace FileTree

variable (tree : FileTree) (path : Path)

theorem editFree_realPath : EditFree (tree.realPath path) := by
  rw [realPath]
  split
  · exact .error rfl
  · exact .ok _

theorem editFree_displayPath (repo : Location) : EditFree (tree.displayPath path repo) := by
  apply EditFree.map
  apply (tree.editFree_realPath path).bind
  intro location _
  split
  · exact .error rfl
  · exact .ok _

theorem editFree_readText : EditFree (tree.readText path) := by
  have hbytes : EditFree (tree.readBytes path) := by
    rw [readBytes]
    split
    · exact .error rfl
    · split
      · exact .ok _
      · exact .error rfl
      · exact .error rfl
  apply hbytes.bind
  intro bytes _
  split
  · exact .ok _
  · exact .error rfl

theorem editFree_placeOf : EditFree (tree.placeOf path) := by
  rw [placeOf]
  split
  · exact .ok _
  · exact .error rfl

theorem editFree_ensureDirectories : EditFree (tree.ensureDirectories path) :=
  EditFree.mapError fun _ => rfl

theorem editFree_apply (change : Change) : EditFree (tree.apply change) := by
  rw [apply]
  split
  · split
    · exact .ok _
    · exact .ok _
  · exact tree.editFree_ensureDirectories _
  · apply (tree.editFree_ensureDirectories _).bind
    intro made _
    apply (made.editFree_placeOf _).bind
    intro place _
    split
    · exact .error rfl
    · exact .ok _
  · apply (tree.editFree_ensureDirectories _).bind
    intro made _
    have hplace : EditFree (made.writePlace change.path) := by
      apply (made.editFree_placeOf _).bind
      intro place _
      split
      · exact .ok _
      · exact .error rfl
      · exact .ok _
    exact hplace.bind fun place _ => .ok _

theorem editFree_applyAll (changes : List Change) : EditFree (tree.applyAll changes).1 := by
  induction changes generalizing tree with
  | nil => exact .ok _
  | cons change rest ih =>
    rw [applyAll]
    cases h : tree.apply change with
    | ok made => exact ih made
    | error e => exact .error (tree.editFree_apply change e h)

end FileTree

theorem Disk.editFree_write (disk : Disk) (path : Path) (text : Text) :
    EditFree (disk.write path text).1 := by
  rw [write]
  split
  · rename_i e h
    exact .error (disk.tree.editFree_realPath path e h)
  · dsimp only
    split
    · exact .error rfl
    · split
      · exact .error rfl
      · exact .ok _

theorem Disk.editFree_makeDirectories (disk : Disk) (path : Path) :
    EditFree (disk.makeDirectories path).1 := by
  rw [makeDirectories]
  split
  · exact .error rfl
  · split
    · exact .error rfl
    · exact .ok _

namespace Work

variable {α β : Type} {work : Work α} {w : Workspace}

/-- The work does not fail on `w` because of an edit. -/
def EditFreeAt (work : Work α) (w : Workspace) : Prop := EditFree (work.run w).1

namespace EditFreeAt

theorem pure (a : α) : EditFreeAt (Pure.pure a) w := EditFree.ok a

theorem throw {e : Failure} (h : e.isEdit = false) : EditFreeAt (MonadExcept.throw e : Work α) w :=
  EditFree.error h

theorem bind {f : α → Work β} (h : EditFreeAt work w)
    (hf : ∀ a w', Yields work w a w' → EditFreeAt (f a) w') : EditFreeAt (work >>= f) w := by
  rw [EditFreeAt, run_bind]
  rcases hr : work.run w with ⟨e | a, w'⟩
  · exact .error (h e (by rw [hr]))
  · exact hf a w' hr

/-- Work that never fails because of an edit may be followed by any such work. -/
theorem andThen {f : α → Work β} (h : EditFreeAt work w)
    (hf : ∀ a w, EditFreeAt (f a) w) : EditFreeAt (work >>= f) w :=
  h.bind fun a w' _ => hf a w'

theorem map {f : α → β} (h : EditFreeAt work w) : EditFreeAt (f <$> work) w := by
  rw [map_eq_pure_bind]
  exact h.andThen fun a _ => .pure _

theorem get : EditFreeAt get w := EditFree.ok _

theorem set (v : Workspace) : EditFreeAt (set v) w := EditFree.ok _

theorem modify (f : Workspace → Workspace) : EditFreeAt (modify f) w := EditFree.ok _

theorem ofExcept {answer : Except Failure α} (h : EditFree answer) :
    EditFreeAt (ofExcept answer) w := by
  cases answer with
  | error e => exact .throw (h e rfl)
  | ok a => exact .pure a

theorem look {f : FileTree → Except Failure α} (h : ∀ tree, EditFree (f tree)) :
    EditFreeAt (look f) w :=
  get.andThen fun v _ => ofExcept (h v.disk.tree)

theorem onDisk {f : Disk → Except Failure α × Disk} (h : ∀ disk, EditFree (f disk).1) :
    EditFreeAt (onDisk f) w :=
  get.andThen fun v _ => (modify _).andThen fun _ _ => ofExcept (h v.disk)

theorem tryCatch {handler : Failure → Work α} (h : EditFreeAt work w)
    (hhandler : ∀ e v, e.isEdit = false → EditFreeAt (handler e) v) :
    EditFreeAt (tryCatch work handler) w := by
  rw [EditFreeAt, run_tryCatch]
  rcases hr : work.run w with ⟨e | a, w'⟩
  · exact hhandler e w' (h e (by rw [hr]))
  · exact .ok a

theorem attempt (h : EditFreeAt work w) : EditFreeAt (attempt work) w := by
  apply h.map.tryCatch
  intro e v he
  split
  · exact .pure _
  · exact .throw he

theorem attemptFile (h : EditFreeAt work w) : EditFreeAt (attemptFile work) w := by
  apply h.map.tryCatch
  intro e v he
  split
  · exact .pure _
  · exact .pure _
  · exact .throw he

theorem foldlM {f : β → α → Work β} {as : List α} (h : ∀ a ∈ as, ∀ b w, EditFreeAt (f b a) w)
    (b : β) (w : Workspace) : EditFreeAt (as.foldlM f b) w := by
  induction as generalizing b w with
  | nil => exact .pure b
  | cons a as ih =>
    rw [List.foldlM_cons]
    exact (h a List.mem_cons_self b w).andThen
      (ih fun x hx => h x (List.mem_cons_of_mem _ hx))

end EditFreeAt

end Work

open Work

namespace Tasks

variable {w : Workspace}

theorem editFree_enter (call : StoreCall) : EditFreeAt (enter call) w := by
  apply EditFreeAt.get.andThen
  intro v w
  apply (EditFreeAt.set _).andThen
  intro _ w
  split
  · exact .pure _
  · exact .throw rfl

theorem editFree_ask {α : Type} (answer : Except DocumentFlaw α) : EditFreeAt (ask answer) w :=
  .ofExcept (.mapError fun _ => rfl)

theorem editFree_document : EditFreeAt document w := EditFreeAt.get.andThen fun _ _ => .pure _

theorem editFree_setDocument (doc : Document) : EditFreeAt (setDocument doc) w := .modify _

theorem editFree_save : EditFreeAt save w := by
  apply EditFreeAt.get.andThen
  intro v w
  split
  · exact .pure _
  · rename_i path _
    apply EditFreeAt.tryCatch
    · apply (EditFreeAt.onDisk fun disk => disk.editFree_makeDirectories _).andThen
      intro _ w
      apply editFree_document.andThen
      intro doc w
      apply EditFreeAt.get.andThen
      intro v w
      apply (editFree_ask _).andThen
      intro stamped w
      apply (editFree_setDocument _).andThen
      intro _ w
      apply editFree_document.andThen
      intro doc w
      exact EditFreeAt.onDisk fun disk => disk.editFree_write path _
    · intro e v he
      split
      · exact .throw rfl
      · exact .throw he

theorem editFree_interfere : EditFreeAt interfere w :=
  EditFreeAt.get.andThen fun v _ =>
    EditFreeAt.onDisk fun disk => disk.tree.editFree_applyAll v.afterCreate

theorem editFree_create (fields : Fields Json) : EditFreeAt (create fields) w := by
  apply (editFree_enter _).andThen
  intro _ w
  apply EditFreeAt.get.andThen
  intro v w
  apply (editFree_ask _).andThen
  intro minted w
  apply (editFree_setDocument _).andThen
  intro _ w
  apply editFree_save.attempt.andThen
  intro saved w
  split
  · apply editFree_document.andThen
    intro doc w
    exact (editFree_setDocument _).andThen fun _ _ => .throw rfl
  · exact editFree_interfere.andThen fun _ _ => .pure _

theorem editFree_has (key : Text) : EditFreeAt (has key) w :=
  (editFree_enter _).andThen fun _ _ => editFree_document.andThen fun _ _ => .pure _

theorem editFree_anchors (key : Text) : EditFreeAt (anchors key) w :=
  editFree_document.andThen fun _ _ => editFree_ask _

theorem editFree_append (key : Text) (anchor : Anchor) : EditFreeAt (append key anchor) w := by
  have hadd : ∀ (doc : Document) now, EditFree (doc.addAnchor key anchor now) := by
    intro doc now
    rw [Document.addAnchor]
    split
    · exact .error rfl
    · apply (EditFree.mapError fun _ => rfl).bind
      intro references _
      split
      · exact .ok _
      · exact .ok _
    · exact .error rfl
  apply (editFree_enter _).andThen
  intro _ w
  apply editFree_document.andThen
  intro doc w
  apply EditFreeAt.get.andThen
  intro v w
  apply (EditFreeAt.ofExcept (hadd _ _)).andThen
  intro found w
  split
  · exact .pure _
  · exact (editFree_setDocument _).andThen fun _ _ => editFree_save

theorem editFree_remove (key : Text) (anchor : Anchor) : EditFreeAt (remove key anchor) w := by
  apply (editFree_enter _).andThen
  intro _ w
  apply editFree_document.andThen
  intro doc w
  apply EditFreeAt.get.andThen
  intro v w
  apply (editFree_ask _).andThen
  intro found w
  split
  · exact .pure _
  · exact (editFree_setDocument _).andThen fun _ _ => editFree_save.andThen fun _ _ => .pure _

end Tasks

namespace Reconciler

variable {reconciler : Reconciler} {w : Workspace}

theorem editFree_pruneFile (key : Text) (keep : Anchor) (anchors : List Anchor) :
    EditFreeAt (reconciler.pruneFile key keep anchors) w := by
  induction anchors generalizing w with
  | nil => exact .pure _
  | cons anchor rest ih =>
    have hrest : ∀ (pruned : Bool) w, EditFreeAt (do
        let others ← reconciler.pruneFile key keep rest
        return others + pruned.toNat) w :=
      fun _ _ => ih.andThen fun _ _ => .pure _
    rw [pruneFile]
    split
    · split
      · exact hrest true w
      · exact (Tasks.editFree_remove key anchor).andThen hrest
    · exact hrest false w

theorem editFree_confirm (key : Text) (anchor : Anchor) :
    EditFreeAt (reconciler.confirm key anchor) w := by
  apply (EditFreeAt.modify _).andThen
  intro _ w
  apply (Tasks.editFree_anchors key).andThen
  intro anchors w
  apply (editFree_pruneFile key anchor anchors).andThen
  intro pruned w
  split
  · exact (Tasks.editFree_append key anchor).andThen fun _ _ => .pure _
  · exact .pure _

end Reconciler

end TodoTracker
