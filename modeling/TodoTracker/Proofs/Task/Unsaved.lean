import TodoTracker.Proofs.Task.Created

/-!
# Calls that could not be saved

A call that changes tasks changes the document first and saves it then. When the document cannot be
written, only a task that was being created is taken back. Every other change stays, and the next
document that is saved has it.
-/

set_option autoImplicit false

namespace TodoTracker

open Work

theorem Work.fails_map {α β : Type} {work : Work α} {f : α → β} {w w' : Workspace} {e : Failure} :
    Fails (f <$> work) w e w' ↔ Fails work w e w' := by
  rw [Fails, Fails, run_map]
  rcases work.run w with ⟨failure | a, v⟩
  · constructor <;>
    · rintro ⟨⟩
      rfl
  · exact iff_of_false (fun h => by cases h) (fun h => by cases h)

/-- The calls of the task store that change tasks. -/
inductive Mutation
  | create (fields : Fields Json)
  | put (key : Text) (fields : Fields Json)
  | delete (key : Text)
  | append (key : Text) (anchor : Anchor)
  | remove (key : Text) (anchor : Anchor)

namespace Mutation

def work : Mutation → Work Unit
  | create fields => (fun _ => ()) <$> Tasks.create fields
  | put key fields => (fun _ => ()) <$> Tasks.put key fields
  | delete key => (fun _ => ()) <$> Tasks.delete key
  | append key anchor => Tasks.append key anchor
  | remove key anchor => (fun _ => ()) <$> Tasks.remove key anchor

/-- Whether a call that is not saved changes no task: a task that is created is taken back, and
recording a task again that is recorded already is no change. -/
def LeavesTasks (w : Workspace) : Mutation → Prop
  | create _ => True
  | put key fields =>
    w.store.document.tasks.get? key = some (Document.newTask key w.now fields)
  | delete _ | append _ _ | remove _ _ => False

end Mutation

namespace Fields

variable {α : Type} {fields : Fields α} {name : Text} {value : α}

theorem set_eq_self_iff (hnodup : fields.names.Nodup) :
    fields.set name value = fields ↔ fields.get? name = some value := by
  constructor
  · intro h
    rw [← h]
    exact get?_set_self fields name value
  · intro h
    have hhas : fields.has name = true := has_eq_true_iff.2 (List.mem_map_of_mem (mem_of_get? h))
    rw [set, if_pos hhas]
    refine (List.map_congr_left fun field hfield => ?_).trans (List.map_id _)
    by_cases hname : field.1 = name
    · have hsame := get?_of_mem hnodup hfield
      rw [hname, h] at hsame
      cases hsame
      simp [← hname]
    · simp [hname]

theorem not_mem_names_erase (fields : Fields α) (name : Text) : name ∉ (fields.erase name).names := by
  simp [erase, names]

end Fields

namespace TaskMap

variable {tasks : TaskMap} {key : Text} {task : Json}

theorem insert_eq_self_iff : tasks.insert key task = tasks ↔ tasks.get? key = some task := by
  rw [get?, ← Fields.set_eq_self_iff tasks.nodup]
  exact ⟨fun h => congrArg entries h, fun h => by cases tasks; exact TaskMap.mk.injEq .. ▸ h⟩

theorem erase_ne_self (h : tasks.task? key = some task) : tasks.erase key ≠ tasks := by
  intro heq
  have hkey : key ∈ tasks.keys := by
    by_contra habsent
    rw [task?_eq_none habsent] at h
    cases h
  have hkept : key ∈ (tasks.erase key).keys := by rwa [heq]
  exact Fields.not_mem_names_erase tasks.entries key hkept

end TaskMap

/-- Other references make another task. -/
theorem Document.put_withReferences_ne {doc : Document} {key now : Text} {task : Json}
    {items items' : List Json} (htask : doc.tasks.task? key = some task)
    (hitems : references task = .ok items) (hne : items' ≠ items) (fields : Fields Json) :
    (doc.put key (withReferences fields items' now)).tasks ≠ doc.tasks := by
  intro h
  have hsame : (doc.put key (withReferences fields items' now)).tasks.task? key = some task := by
    rw [h, htask]
  have hput : (doc.put key (withReferences fields items' now)).tasks.task? key =
      some (withReferences fields items' now) := TaskMap.task?_insert_object _ _ _
  rw [hput] at hsame
  cases hsame
  rw [references_withReferences] at hitems
  exact hne (Except.ok.inj hitems)

namespace Tasks

/-- The workspace with another document. -/
def holding (w : Workspace) (doc : Document) : Workspace :=
  { w with store := { w.store with document := doc } }

/-- Recording a task is refused for its fields, or saves the document with the task. -/
theorem run_put (key : Text) (fields : Fields Json) (w : Workspace) :
    (put key fields).run w = match fields.find? fun field => reservedNames.contains field.1 with
      | some (name, _) => (.error (.document (.repeatedField name)), w)
      | none => ((fun _ => Document.newTask key w.now fields) <$> save).run
          (holding w (w.store.document.put key (Document.newTask key w.now fields))) := by
  rw [put]
  cases fields.find? fun field => reservedNames.contains field.1 with
  | some field => rfl
  | none =>
    simp only [run_bind, run_get, run_document, run_setDocument, run_map]
    rfl

/-- Deleting a task has nothing to do, or saves the document without the task. -/
theorem run_delete (key : Text) (w : Workspace) :
    (delete key).run w = match w.store.document.tasks.task? key with
      | none => (.ok false, holding w (w.store.document.erase key))
      | some _ => ((fun _ => true) <$> save).run (holding w (w.store.document.erase key)) := by
  rw [delete]
  simp only [run_bind, run_document, run_setDocument]
  cases w.store.document.tasks.task? key with
  | none => rfl
  | some task =>
    simp only [run_bind, run_map]
    rfl

variable {w w' : Workspace} {key : Text} {fields : Fields Json} {anchor : Anchor} {e : StoreError}
  {path : Text} {error : FileError}

/-- When saving a document fails, the tasks of that document stay. -/
theorem tasks_of_save_fails {α : Type} {f : Unit → α} {failure : Failure}
    (h : Fails (f <$> save) w failure w') :
    w'.store.document.tasks = w.store.document.tasks := by
  have hsave : save.run w = (.error failure, w') := fails_map.1 h
  have htasks := tasks_save w
  rwa [hsave] at htasks

theorem tasks_of_put_fails (h : Fails (put key fields) w (.store e) w') :
    w'.store.document.tasks =
      w.store.document.tasks.insert key (Document.newTask key w.now fields) := by
  rw [Fails, run_put] at h
  split at h
  · cases h
  · exact tasks_of_save_fails h

theorem tasks_of_delete_fails (h : Fails (delete key) w (.store e) w') :
    (∃ task, w.store.document.tasks.task? key = some task) ∧
      w'.store.document.tasks = w.store.document.tasks.erase key := by
  rw [Fails, run_delete] at h
  split at h
  · cases h
  · rename_i task htask
    exact ⟨⟨task, htask⟩, tasks_of_save_fails h⟩

theorem tasks_of_append_fails (h : Fails (append key anchor) w (.store (.write path error)) w') :
    ∃ doc, w.store.document.addAnchor key anchor w.now = .ok (some doc) ∧
      w'.store.document.tasks = doc.tasks := by
  -- a document that takes no anchor is no document that cannot be written
  have hother : FailsOnly (· ≠ .store (.write path error))
      (w.store.document.addAnchor key anchor w.now) := by
    rw [Document.addAnchor]
    split
    · exact .error fun h => by cases h
    · exact (FailsOnly.mapError fun _ h => by cases h).bind fun _ _ =>
        .ite (fun _ => .ok _) fun _ => .ok _
    · exact .error fun h => by cases h
  rw [Fails, run_append] at h
  split at h
  · cases h
  split at h
  · rename_i failure hadd
    exact absurd (Except.error.inj (Prod.mk.inj h).1) (hother failure hadd)
  · cases h
  · rename_i doc hadd
    have htasks := tasks_save (changed w doc)
    rw [h] at htasks
    exact ⟨doc, hadd, htasks⟩

theorem tasks_of_remove_fails (h : Fails (remove key anchor) w (.store (.write path error)) w') :
    ∃ doc, w.store.document.removeAnchor key anchor w.now = .ok (some doc) ∧
      w'.store.document.tasks = doc.tasks := by
  rw [Fails, run_remove] at h
  split at h
  · cases h
  split at h
  · cases h
  · cases h
  · rename_i doc hremove
    exact ⟨doc, hremove, tasks_of_save_fails h⟩

end Tasks

/-- A call whose document could not be written leaves the tasks as they were exactly when it creates
a task, or records a task that is recorded already. -/
theorem Mutation.tasks_eq_iff_of_unsaved {call : Mutation} {w w' : Workspace} {path : Text}
    {error : FileError} (h : Fails call.work w (.store (.write path error)) w') :
    w'.store.document.tasks = w.store.document.tasks ↔ call.LeavesTasks w := by
  cases call with
  | create fields => exact iff_of_true (Tasks.tasks_of_create_fails (fails_map.1 h)) trivial
  | put key fields =>
    rw [Tasks.tasks_of_put_fails (fails_map.1 h)]
    exact TaskMap.insert_eq_self_iff
  | delete key =>
    obtain ⟨⟨task, htask⟩, htasks⟩ := Tasks.tasks_of_delete_fails (fails_map.1 h)
    rw [htasks]
    exact iff_of_false (TaskMap.erase_ne_self htask) id
  | append key anchor =>
    obtain ⟨doc, hadd, htasks⟩ := Tasks.tasks_of_append_fails h
    obtain ⟨fields, items, htask, hitems, hdoc⟩ := Document.addAnchor_eq_ok hadd
    split at hdoc
    · cases hdoc
    · cases hdoc
      rw [htasks]
      exact iff_of_false (Document.put_withReferences_ne htask hitems (by simp) fields) id
  | remove key anchor =>
    obtain ⟨doc, hremove, htasks⟩ := Tasks.tasks_of_remove_fails (fails_map.1 h)
    obtain ⟨-, hdoc⟩ | ⟨fields, items, htask, hitems, hdoc⟩ := Document.removeAnchor_eq_ok hremove
    · cases hdoc
    split at hdoc
    · cases hdoc
    · rename_i hfewer
      cases hdoc
      rw [htasks]
      exact iff_of_false (Document.put_withReferences_ne htask hitems
        (fun hsame => hfewer (congrArg List.length hsame)) fields) id

/-- A store whose directory cannot be made, since there is a file in its place. -/
def blockedWorkspace : Workspace where
  disk := .ofTree ⟨[(["d".toList], .file [])], by decide⟩
  store := ⟨some (.ofLocation ["d".toList, "tasks.json".toList]), "PROJ".toList,
    .make "PROJ".toList []⟩
  now := []
  git := none
  sightings := {}
  progress := []
  calls := 0
  refusals _ _ := none
  afterCreate := []

/-- The task stays although the call that was to record it has failed. -/
theorem Mutation.tasks_eq_iff_of_unsaved_put : ∃ path error w',
    Fails (Mutation.put "PROJ-1".toList []).work blockedWorkspace (.store (.write path error)) w' ∧
      w'.store.document.tasks ≠ blockedWorkspace.store.document.tasks := by
  have hfails : Fails (Mutation.put "PROJ-1".toList []).work blockedWorkspace
      (.store (.write "/d/tasks.json".toList ⟨.alreadyExists, "/d".toList, none⟩))
      (Tasks.holding blockedWorkspace (blockedWorkspace.store.document.put "PROJ-1".toList
        (Document.newTask "PROJ-1".toList [] []))) := by
    rw [Fails]
    cbv
  refine ⟨_, _, _, hfails, fun hsame => ?_⟩
  have hleaves := (tasks_eq_iff_of_unsaved hfails).1 hsame
  have hnone : blockedWorkspace.store.document.tasks.get? "PROJ-1".toList = none := by decide
  rw [LeavesTasks, hnone] at hleaves
  cases hleaves

end TodoTracker
