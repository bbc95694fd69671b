import TodoTracker.Proofs.Task.Sound

/-!
# New tasks and their first anchor

A task that was created has no references, and the document is sound from then on; where the store
has failed to create one, the tasks are as they were. Confirming a new task in a file records its
anchor, and the anchor stays in the document when it cannot be saved; only a store that refuses the
call leaves the task without it. Calls about other keys leave a new task as it is.
-/

set_option autoImplicit false

namespace TodoTracker

open Work FailsOnly

namespace FileTree

theorem foreign_ensureDirectories (tree : FileTree) (path : Path) :
    Foreign (tree.ensureDirectories path) :=
  .mapError fun _ => rfl

theorem foreign_placeOf (tree : FileTree) (path : Path) : Foreign (tree.placeOf path) := by
  rw [placeOf]
  split
  · exact .ok _
  · exact .error rfl

theorem foreign_apply (tree : FileTree) (change : Change) : Foreign (tree.apply change) := by
  rw [apply]
  split
  · split
    · exact .ok _
    · exact .ok _
  · exact tree.foreign_ensureDirectories _
  · refine (tree.foreign_ensureDirectories _).bind fun made _ => ?_
    refine (made.foreign_placeOf _).bind fun place _ => ?_
    split
    · exact .error rfl
    · exact .ok _
  · refine (tree.foreign_ensureDirectories _).bind fun made _ => ?_
    have hplace : Foreign (made.writePlace change.path) := by
      refine (made.foreign_placeOf _).bind fun place _ => ?_
      split
      · exact .ok _
      · exact .error rfl
      · exact .ok _
    exact hplace.bind fun place _ => .ok _

theorem foreign_applyAll (tree : FileTree) (changes : List Change) :
    Foreign (tree.applyAll changes).1 := by
  induction changes generalizing tree with
  | nil => exact .ok _
  | cons change rest ih =>
    rw [applyAll]
    cases h : tree.apply change with
    | ok made => exact ih made
    | error e => exact .error (tree.foreign_apply change e h)

end FileTree

namespace Work

variable {α : Type} {work : Work α} {w w' : Workspace}

/-- What an attempt answers as an error is a failure of the store. -/
theorem fails_of_attempt {e : StoreError} (h : (attempt work).Yields w (.error e) w') :
    work.Fails w (.store e) w' := by
  rw [attempt, yields_tryCatch] at h
  rcases h with h | ⟨failure, v, hrun, h⟩
  · obtain ⟨a, -, ha⟩ := yields_map.1 h
    cases ha
  · rw [run_map] at hrun
    rcases hwork : work.run w with ⟨failed | a, u⟩
    · rw [hwork] at hrun
      cases hrun
      split at h
      · obtain ⟨heq, rfl⟩ := yields_pure.1 h
        cases heq
        exact hwork
      · exact absurd h not_yields_throw
    · rw [hwork] at hrun
      cases hrun

/-- An attempt does not fail with a failure of the store. -/
theorem foreign_of_fails_attempt {e : Failure} (h : Fails (attempt work) w e w') : e.IsForeign := by
  have hany : GuardedAt (fun _ => True) (fun _ => True) work w := ⟨trivial, fun _ _ => trivial⟩
  exact (hany.attempt.of_fails h).2.2

end Work

namespace Document

/-- The key has a task without references. -/
def NewAt (doc : Document) (key : Text) : Prop :=
  ∃ fields, doc.tasks.task? key = some (.object fields) ∧ openReferences fields = .ok []

variable {doc doc' : Document} {key : Text}

theorem NewAt.of_task (h : doc.NewAt key) (htask : doc'.tasks.task? key = doc.tasks.task? key) :
    doc'.NewAt key := by
  obtain ⟨fields, hold, hopen⟩ := h
  exact ⟨fields, htask.trans hold, hopen⟩

theorem NewAt.anchors (h : doc.NewAt key) : doc.anchors key = .ok [] := by
  obtain ⟨fields, htask, hopen⟩ := h
  exact anchors_of_task htask (references_of_openReferences hopen)

/-- A new task takes an anchor, which is its only one. -/
theorem NewAt.addAnchor (h : doc.NewAt key) {anchor : Anchor} (hwritten : anchor.IsWritten)
    (now : Text) : ∃ doc', doc.addAnchor key anchor now = .ok (some doc') ∧
      doc'.anchors key = .ok [anchor] := by
  have hnone := h.anchors
  obtain ⟨fields, htask, hopen⟩ := h
  obtain ⟨doc', hadd⟩ : ∃ doc', doc.addAnchor key anchor now = .ok (some doc') := by
    rw [Document.addAnchor, htask]
    dsimp only
    rw [hopen]
    exact ⟨_, rfl⟩
  refine ⟨doc', hadd, ?_⟩
  obtain ⟨as, has, hafter⟩ := anchors_addAnchor hadd
  rw [hnone] at has
  cases has
  rw [hafter, readBack_of_isWritten hwritten, List.nil_append]

end Document

namespace Tasks

variable {K : Text → Prop} {w w' : Workspace} {key : Text}

/-- The document has these tasks. -/
def Holds (tasks : TaskMap) (w : Workspace) : Prop := w.store.document.tasks = tasks

/-- Saving changes no task, whether it succeeds or not. -/
theorem holds_save {tasks : TaskMap} (hw : Holds tasks w) :
    GuardedAt (Holds tasks) (fun _ => True) save w := by
  refine .bindGet ?_
  split
  · exact .pure _ hw
  · refine GuardedAt.tryCatch ?_ fun e v (_ : True) hv => ?_
    · refine (GuardedAt.onDisk hw fun _ _ => trivial).bind fun _ v hmake hv => ?_
      refine guarded_bindDocument (.bindGet ?_)
      refine (GuardedAt.ofExcept hv fun _ _ => trivial).bind fun stamped u hask hu => ?_
      obtain ⟨hstamp, rfl⟩ := yields_ask.1 hask
      have htasks : stamped.tasks = tasks := (Document.tasks_stamp hstamp).trans hu
      refine (GuardedAt.modify _ htasks).bind fun _ t _ ht => ?_
      exact guarded_bindDocument (.onDisk ht fun _ _ => trivial)
    · split <;> exact .throw hv trivial

theorem tasks_save (w : Workspace) : (save.run w).2.store.document.tasks = w.store.document.tasks :=
  (holds_save rfl).leaves

theorem tasks_of_attempt_save {answer : Except StoreError Unit}
    (h : (attempt save).Yields w answer w') :
    w'.store.document.tasks = w.store.document.tasks := by
  have hrun : w' = (save.run w).2 := by rw [← run_attempt, h]
  rw [hrun]
  exact tasks_save w

theorem anchors_of_run_save (w : Workspace) (key : Text) :
    (save.run w).2.anchors key = w.anchors key :=
  Document.anchors_congr (tasks_save w) key

theorem hasNull_of_save {u : Unit} (h : save.Yields w u w') {path : Path}
    (hpath : w.store.path = some path) : path.hasNull = false := by
  rw [save, yields_bind] at h
  obtain ⟨v, w₁, hget, h⟩ := h
  obtain ⟨rfl, rfl⟩ := yields_get.1 hget
  rw [hpath] at h
  obtain ⟨_, w₂, -, h⟩ := yields_bind.1 (yields_asWriteError h)
  obtain ⟨_, w₃, -, h⟩ := yields_bind.1 h
  obtain ⟨_, w₄, -, h⟩ := yields_bind.1 h
  obtain ⟨_, w₅, -, h⟩ := yields_bind.1 h
  obtain ⟨_, w₆, -, h⟩ := yields_bind.1 h
  obtain ⟨_, w₇, -, h⟩ := yields_bind.1 h
  have hwrite := (yields_onDisk.1 h).1
  cases hnull : path.hasNull with
  | false => rfl
  | true =>
    rw [Disk.write, FileTree.realPath, if_pos hnull] at hwrite
    cases hwrite

section Create

variable {fields : Fields Json}

/-- Where the store fails to create a task, the tasks are as they were. -/
theorem tasks_of_create_fails {e : StoreError} (h : Fails (create fields) w (.store e) w') :
    w'.store.document.tasks = w.store.document.tasks := by
  rcases fails_bind.1 h with henter | ⟨_, v, henter, h⟩
  · have hrun := run_enter .create w
    rw [henter] at hrun
    split at hrun
    · cases hrun
    · rw [(Prod.mk.inj hrun).2]
  obtain rfl := yields_enter henter
  rcases fails_bind.1 h with hget | ⟨v, _, hget, h⟩
  · cases hget
  obtain ⟨rfl, rfl⟩ := yields_get.1 hget
  rcases fails_bind.1 h with hask | ⟨⟨key, minted⟩, _, hask, h⟩
  · rw [Fails, run_ask] at hask
    have hforeign : Foreign ((w.store.document.mint w.store.project).mapError .document) :=
      .mapError fun _ => rfl
    cases hforeign (.store e) (Prod.mk.inj hask).1
  obtain ⟨hmint, rfl⟩ := yields_ask.1 hask
  obtain ⟨hnew, htasks⟩ := Document.mint_eq_ok hmint
  rcases fails_bind.1 h with hset | ⟨_, _, hset, h⟩
  · cases hset
  obtain rfl := yields_setDocument.1 hset
  rcases fails_bind.1 h with hsave | ⟨answer, u, hsave, h⟩
  · cases foreign_of_fails_attempt hsave
  cases answer with
  | ok done =>
    rcases fails_bind.1 h with hinterfere | ⟨_, _, -, h⟩
    · have hforeign : GuardedAt (fun _ => True) Failure.IsForeign interfere u :=
        .bindGet (.onDisk trivial (FileTree.foreign_applyAll _ _))
      cases (hforeign.of_fails hinterfere).2
    · exact absurd h not_fails_pure
  | error error =>
    have hsaved : u.store.document.tasks = minted.tasks.insert key _ :=
      tasks_of_attempt_save hsave
    rcases fails_bind.1 h with hdoc | ⟨doc, _, hdoc, h⟩
    · cases hdoc
    obtain ⟨rfl, rfl⟩ := yields_document.1 hdoc
    rcases fails_bind.1 h with hset | ⟨_, _, hset, h⟩
    · cases hset
    obtain rfl := yields_setDocument.1 hset
    cases h
    dsimp only [Document.erase]
    rw [hsaved, htasks, TaskMap.erase_insert hnew]

/-- What creating a task has done: the task is a new one, the other keys have the tasks that they
had, and the document can take further ones. -/
structure Created (w : Workspace) (key : Text) (w' : Workspace) : Prop where
  fresh : w.store.document.tasks.task? key = none
  new : w'.store.document.NewAt key
  others : ∀ other, other ≠ key →
    w'.store.document.tasks.task? other = w.store.document.tasks.task? other
  sound : ∀ K, (∀ other, K other → w.store.document.OpenAt other) → w'.Sound K w.afterCreate

theorem created_of_create (hfields : Document.referencesName ∉ fields.names)
    (h : (create fields).Yields w key w') : Created w key w' := by
  obtain ⟨doc, v, hmint, hsave, disk, rfl⟩ := of_create h
  obtain ⟨hfree, htasks⟩ := Document.mint_eq_ok hmint
  have hgiven : Document.referencesName ∉
      Fields.names (fields.filter fun field => !field.2.isBlank) :=
    fun hmem => hfields ((List.filter_sublist.map _).subset hmem)
  obtain ⟨task, htask, hopen⟩ := Document.openReferences_newTask key w.now hgiven
  rw [htask] at hsave
  have hput : ∀ other, v.store.document.tasks.task? other =
      (doc.put key (.object task)).tasks.task? other := by
    rw [(yields_save hsave).2]
    exact fun _ => rfl
  refine ⟨TaskMap.task?_eq_none hfree,
    ⟨task, (hput key).trans (TaskMap.task?_insert_object _ _ _), hopen⟩, ?_, ?_⟩
  · intro other hne
    exact (hput other).trans ((TaskMap.task?_insert_of_ne _ _ hne).trans (by rw [htasks]))
  · intro K hK
    have hminted : doc.Sound K :=
      ⟨Document.nextNumber_of_mint hmint, fun other hother =>
        (hK other hother).of_task (by rw [htasks])⟩
    have hsound := (guarded_save ⟨hminted.put key hopen,
      fun path hpath => hasNull_of_save hsave hpath, rfl⟩).leads hsave
    exact ⟨hsound.document, hsound.path, hsound.changes⟩

end Create

end Tasks

namespace Reconciler

variable {reconciler : Reconciler} {w w' : Workspace} {key : Text}

theorem called_pruneFile (key : Text) (keep : Anchor) (as : List Anchor) (w : Workspace) :
    GuardedAt (Tasks.Called key w) (fun _ => True) (reconciler.pruneFile key keep as) w := by
  have hall : ∀ v, Tasks.Called key w v →
      GuardedAt (Tasks.Called key w) (fun _ => True) (reconciler.pruneFile key keep as) v := by
    induction as with
    | nil => exact fun v hv => .pure _ hv
    | cons anchor rest ih =>
      intro v hv
      have hrest : ∀ (pruned : Bool) u, Tasks.Called key w u →
          GuardedAt (Tasks.Called key w) (fun _ => True) (do
            let others ← reconciler.pruneFile key keep rest
            return others + pruned.toNat) u :=
        fun _ u hu => (ih u hu).andThen fun _ _ ht => .pure _ ht
      rw [pruneFile]
      split
      · split
        · exact hrest true v hv
        · exact ((Tasks.called_remove key anchor v).imp (fun _ hu => hv.trans hu)
            fun _ _ => trivial).andThen fun pruned u hu => hrest pruned u hu
      · exact hrest false v hv
  exact hall w (.refl key w)

/-- What confirming a key leaves of the other tasks, whether it succeeds or not. -/
theorem called_confirm (key : Text) (anchor : Anchor) (w : Workspace) :
    GuardedAt (Tasks.Called key w) (fun _ => True) (reconciler.confirm key anchor) w := by
  have hsighted : Tasks.Called key w { w with sightings := w.sightings.add key anchor } :=
    ⟨rfl, Nat.le_refl _, rfl, fun _ _ => rfl, id, List.Subset.refl _⟩
  refine (GuardedAt.modify _ hsighted).andThen fun _ v hv => ?_
  refine (Tasks.guarded_bindDocument (.ofExcept hv fun _ _ => trivial)).andThen fun as u hu => ?_
  refine ((called_pruneFile key anchor as u).imp (fun _ ht => hu.trans ht) fun _ h => h).andThen
    fun pruned t ht => ?_
  dsimp only
  split
  · exact ((Tasks.called_append key anchor t).imp (fun _ hs => ht.trans hs)
      fun _ _ => trivial).andThen fun _ _ hs => .pure _ hs
  · exact .pure _ ht

/-- Confirming a new task in a file is recording its anchor there. -/
theorem run_confirm_of_new (hwet : reconciler.dryRun = false) (hnew : w.store.document.NewAt key)
    (anchor : Anchor) : (reconciler.confirm key anchor).run w =
      ((fun _ => (⟨true, 0⟩ : Confirmation)) <$> Tasks.append key anchor).run
        { w with sightings := w.sightings.add key anchor } := by
  have hanchors : (Tasks.anchors key).run { w with sightings := w.sightings.add key anchor } =
      (.ok [], { w with sightings := w.sightings.add key anchor }) :=
    Tasks.yields_anchors.2 ⟨hnew.anchors, rfl⟩
  rw [confirm, run_bind]
  change (Tasks.anchors key >>= _ : Work Confirmation).run _ = _
  rw [run_bind, hanchors]
  dsimp only
  rw [pruneFile, hwet]
  rfl

/-- A new task is anchored where it is confirmed, unless the store refuses that; then the task has
no anchor. -/
theorem anchors_of_attempt_confirm (hwet : reconciler.dryRun = false)
    (hnew : w.store.document.NewAt key) {anchor : Anchor} (hwritten : anchor.IsWritten)
    {answer : Except StoreError Confirmation}
    (h : (attempt (reconciler.confirm key anchor)).Yields w answer w') :
    w'.anchors key = .ok [anchor] ∨ (∃ e, answer = .error e) ∧ w'.anchors key = .ok [] := by
  obtain ⟨v, hv⟩ : ∃ v, v = { w with sightings := w.sightings.add key anchor } := ⟨_, rfl⟩
  have hconfirm := run_confirm_of_new hwet hnew anchor
  rw [← hv, run_map] at hconfirm
  have hnewer : v.store.document.NewAt key := hv ▸ hnew
  obtain ⟨doc, hadd, hdoc⟩ := hnewer.addAnchor hwritten v.now
  have hleft : w' = ((reconciler.confirm key anchor).run w).2 := by rw [← run_attempt, h]
  have happend := Tasks.run_append key anchor v
  rw [hadd] at happend
  cases hrefused : v.refusals v.calls .append with
  | some text =>
    rw [hrefused] at happend
    rw [happend] at hconfirm
    right
    constructor
    · rcases yields_attempt h with ⟨a, -, hyields⟩ | he
      · cases hconfirm.symm.trans hyields
      · exact he
    · rw [hleft, hconfirm]
      exact hnewer.anchors
  | none =>
    rw [hrefused] at happend
    have happend : (Tasks.append key anchor).run v = Tasks.save.run (Tasks.changed v doc) := happend
    left
    have hsaved : w' = (Tasks.save.run (Tasks.changed v doc)).2 := by
      rw [hleft, hconfirm, happend]
      rcases Tasks.save.run (Tasks.changed v doc) with ⟨e | u, t⟩ <;> rfl
    rw [hsaved, Tasks.anchors_of_run_save]
    exact hdoc

end Reconciler

end TodoTracker
