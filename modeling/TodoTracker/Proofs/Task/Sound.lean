import TodoTracker.Proofs.Files.Foreign
import TodoTracker.Proofs.Task.Minted
import TodoTracker.Proofs.Task.Outcomes
import TodoTracker.Anchor.Upkeep

/-!
# Documents that the store can work with

A call of the store can fail because the document has the wrong form. It never does when the header
gives a number and the tasks that it is about take anchors; every call keeps that, whether it
succeeds, is refused, or cannot save.
-/

set_option autoImplicit false

namespace TodoTracker

open Work

namespace Fields

variable {α : Type}

theorem get?_append (fields fields' : Fields α) (name : Text) :
    get? (fields ++ fields') name = (get? fields name).or (get? fields' name) := by
  rw [get?, List.find?_append, get?, get?]
  cases fields.find? fun field => field.1 == name <;> rfl

theorem get?_merge_of_not_mem {fields later : Fields α} {name : Text} (h : name ∉ later.names) :
    (merge fields later).get? name = fields.get? name := by
  induction later generalizing fields with
  | nil => rfl
  | cons field later ih =>
    obtain ⟨hname, hlater⟩ := List.ne_and_not_mem_of_not_mem_cons h
    exact (ih hlater).trans (get?_set_of_ne fields _ hname)

theorem get?_erase_of_ne (fields : Fields α) {name other : Text} (h : other ≠ name) :
    (fields.erase name).get? other = fields.get? other := by
  induction fields with
  | nil => rfl
  | cons field fields ih =>
    rw [erase, List.filter_cons]
    split
    · rw [get?_cons, get?_cons]
      split
      · rfl
      · exact ih
    · rename_i hname
      have hname : field.1 = name := by simpa using hname
      rw [get?_cons, if_neg (by simpa [hname] using h.symm)]
      exact ih

theorem get?_erase_self (fields : Fields α) (name : Text) : (fields.erase name).get? name = none := by
  refine get?_eq_none ?_
  simp [has, erase]

end Fields

namespace TaskMap

theorem task?_erase_self (tasks : TaskMap) (key : Text) : (tasks.erase key).task? key = none := by
  have hget : (tasks.erase key).get? key = none := Fields.get?_erase_self _ _
  rw [task?, hget]

/-- A task that is taken back leaves the tasks as they were. -/
theorem erase_insert {tasks : TaskMap} {key : Text} (h : key ∉ tasks.keys) (task : Json) :
    (tasks.insert key task).erase key = tasks := by
  have hnew : ¬tasks.entries.has key = true := by
    rw [Fields.has_eq_true_iff]
    exact h
  have hold : tasks.entries.filter (fun field => field.1 != key) = tasks.entries := by
    rw [List.filter_eq_self]
    intro field hfield
    simpa using fun heq : field.1 = key => h (heq ▸ List.mem_map_of_mem hfield)
  cases tasks with
  | mk entries nodup =>
    simp only [insert, erase, mk.injEq]
    rw [Fields.set, if_neg hnew, Fields.erase, List.filter_append, hold]
    simp

theorem task?_erase_of_ne (tasks : TaskMap) {key other : Text} (h : other ≠ key) :
    (tasks.erase key).task? other = tasks.task? other := by
  have hget : (tasks.erase key).get? other = tasks.get? other := Fields.get?_erase_of_ne _ h
  rw [task?, task?, hget]

end TaskMap

namespace Document

/-- A task that has the key takes anchors. -/
def OpenAt (doc : Document) (key : Text) : Prop :=
  ∀ task, doc.tasks.task? key = some task →
    ∃ fields items, task = .object fields ∧ openReferences fields = .ok items

theorem openReferences_withReferences (fields : Fields Json) (items : List Json) (now : Text) :
    ∃ fields', withReferences fields items now = .object fields' ∧
      openReferences fields' = .ok items := by
  refine ⟨_, rfl, ?_⟩
  rw [openReferences, Fields.get?_set_of_ne _ _ (by decide), Fields.get?_set_self]

theorem openReferences_newTask (key now : Text) {further : Fields Json}
    (h : referencesName ∉ further.names) :
    ∃ fields, newTask key now further = .object fields ∧ openReferences fields = .ok [] := by
  refine ⟨_, rfl, ?_⟩
  rw [openReferences, Fields.get?_merge_of_not_mem h]
  rfl

theorem OpenAt.of_task {doc doc' : Document} {key : Text} (h : doc.OpenAt key)
    (htask : doc'.tasks.task? key = doc.tasks.task? key) : doc'.OpenAt key := by
  intro task
  rw [htask]
  exact h task

theorem OpenAt.put {doc : Document} {other : Text} (h : doc.OpenAt other) (key : Text)
    {fields : Fields Json} {items : List Json} (hopen : openReferences fields = .ok items) :
    (doc.put key (.object fields)).OpenAt other := by
  by_cases hkey : other = key
  · subst hkey
    intro task htask
    rw [Document.put, TaskMap.task?_insert_object] at htask
    cases htask
    exact ⟨fields, items, rfl, hopen⟩
  · exact h.of_task (TaskMap.task?_insert_of_ne _ _ hkey)

theorem OpenAt.erase {doc : Document} {other : Text} (h : doc.OpenAt other) (key : Text) :
    (doc.erase key).OpenAt other := by
  by_cases hkey : other = key
  · subst hkey
    intro task htask
    rw [Document.erase, TaskMap.task?_erase_self] at htask
    cases htask
  · exact h.of_task (TaskMap.task?_erase_of_ne _ hkey)

/-- The number that the header gives for the next key. -/
def nextNumber (header : Fields Json) : Except DocumentFlaw Int :=
  readNumber ((Fields.get? header numberName).getD (.int 1))

/-- The header gives a number, and the tasks of the keys in `K` take anchors. -/
structure Sound (K : Text → Prop) (doc : Document) : Prop where
  header : ∃ fields next, doc.header = .object fields ∧ nextNumber fields = .ok next
  tasks : ∀ key, K key → doc.OpenAt key

theorem header_setHeader (doc : Document) (header : Fields Json) :
    (doc.setHeader header).header = .object header := by
  rw [setHeader]
  split
  · have hget : Fields.get? (Fields.set doc.front headerName (.object header) ++ doc.back)
        headerName = some (.object header) := by
      rw [Fields.get?_append, Fields.get?_set_self]
      rfl
    rw [Document.header, hget]
    rfl
  · rename_i hfront
    have hget : Fields.get? (doc.front ++ Fields.set doc.back headerName (.object header))
        headerName = some (.object header) := by
      rw [Fields.get?_append, Fields.get?_eq_none (by simpa using hfront), Fields.get?_set_self]
      rfl
    rw [Document.header, hget]
    rfl

theorem mint_ok {doc : Document} (h : ∃ fields next, doc.header = .object fields ∧
    nextNumber fields = .ok next) (project : Text) : ∃ answer, doc.mint project = .ok answer := by
  obtain ⟨fields, next, hheader, hnext⟩ := h
  rw [nextNumber] at hnext
  rw [mint, hheader]
  dsimp only
  rw [hnext]
  exact ⟨_, rfl⟩

/-- Once a key is minted the header gives a number. -/
theorem nextNumber_of_mint {doc minted : Document} {project key : Text}
    (h : doc.mint project = .ok (key, minted)) :
    ∃ fields next, minted.header = .object fields ∧ nextNumber fields = .ok next := by
  rw [mint] at h
  split at h
  · obtain ⟨next, -, h⟩ := bind_eq_ok h
    cases h
    exact ⟨_, _, header_setHeader _ _, by rw [nextNumber, Fields.get?_set_self]; rfl⟩
  · cases h

namespace Sound

variable {K : Text → Prop} {doc doc' : Document}

theorem mono {K' : Text → Prop} (h : doc.Sound K) (hK : ∀ key, K' key → K key) : doc.Sound K' :=
  ⟨h.header, fun key hkey => h.tasks key (hK key hkey)⟩

theorem put (h : doc.Sound K) (key : Text) {fields : Fields Json} {items : List Json}
    (hopen : openReferences fields = .ok items) : (doc.put key (.object fields)).Sound K :=
  ⟨h.header, fun other hother => (h.tasks other hother).put key hopen⟩

theorem withReferences (h : doc.Sound K) (key : Text) (fields : Fields Json) (items : List Json)
    (now : Text) : (doc.put key (Document.withReferences fields items now)).Sound K := by
  obtain ⟨fields', heq, hopen⟩ := openReferences_withReferences fields items now
  rw [heq]
  exact h.put key hopen

theorem erase (h : doc.Sound K) (key : Text) : (doc.erase key).Sound K :=
  ⟨h.header, fun other hother => (h.tasks other hother).erase key⟩

theorem stamp (h : doc.Sound K) (now : Text) :
    ∃ stamped, doc.stamp now = .ok stamped ∧ stamped.Sound K := by
  obtain ⟨fields, next, hheader, hnext⟩ := h.header
  have hstamp : doc.stamp now =
      .ok (doc.setHeader (Fields.set fields "updated_at".toList (.str now))) := by
    rw [Document.stamp, hheader]
  refine ⟨_, hstamp, ⟨_, next, header_setHeader _ _, ?_⟩, fun key hkey => ?_⟩
  · rw [nextNumber, Fields.get?_set_of_ne _ _ (by decide)]
    exact hnext
  · exact (h.tasks key hkey).of_task (by rw [tasks_setHeader])

theorem mint (h : doc.Sound K) {project key : Text} (hmint : doc.mint project = .ok (key, doc')) :
    doc'.Sound K :=
  ⟨nextNumber_of_mint hmint, fun other hother =>
    (h.tasks other hother).of_task (by rw [(mint_eq_ok hmint).2])⟩

theorem addAnchor (h : doc.Sound K) {key now : Text} {anchor : Anchor}
    (hadd : doc.addAnchor key anchor now = .ok (some doc')) : doc'.Sound K := by
  obtain ⟨fields, items, -, -, hanswer⟩ := addAnchor_eq_ok hadd
  split at hanswer
  · cases hanswer
  · cases hanswer
    exact h.withReferences _ _ _ _

theorem removeAnchor (h : doc.Sound K) {key now : Text} {anchor : Anchor}
    (hremove : doc.removeAnchor key anchor now = .ok (some doc')) : doc'.Sound K := by
  rcases removeAnchor_eq_ok hremove with ⟨-, hanswer⟩ | ⟨fields, items, -, -, hanswer⟩
  · cases hanswer
  · split at hanswer
    · cases hanswer
    · cases hanswer
      exact h.withReferences _ _ _ _

end Sound

namespace OpenAt

variable {doc : Document} {key : Text}

/-- Where a task takes anchors, it can only be missing. -/
theorem addAnchor_failsOnly (h : doc.OpenAt key) (anchor : Anchor) (now : Text) :
    FailsOnly (fun e => e.isStore = true) (doc.addAnchor key anchor now) := by
  rw [addAnchor]
  split
  · exact .error rfl
  · rename_i fields htask
    obtain ⟨_, items, heq, hopen⟩ := h _ htask
    cases heq
    rw [hopen]
    exact .ite (fun _ => .ok _) fun _ => .ok _
  · rename_i value hobject htask
    obtain ⟨fields, items, rfl, -⟩ := h _ htask
    exact absurd rfl (hobject fields)

theorem exists_anchors (h : doc.OpenAt key) : ∃ as, doc.anchors key = .ok as := by
  cases htask : doc.tasks.task? key with
  | none => exact ⟨[], by rw [anchors, htask]⟩
  | some task =>
    obtain ⟨fields, items, rfl, hopen⟩ := h task htask
    exact ⟨_, anchors_of_task htask (references_of_openReferences hopen)⟩

theorem exists_removeAnchor (h : doc.OpenAt key) (anchor : Anchor) (now : Text) :
    ∃ answer, doc.removeAnchor key anchor now = .ok answer := by
  obtain ⟨as, has⟩ := h.exists_anchors
  exact Document.exists_removeAnchor has anchor now

end OpenAt

end Document

/-- The document is sound, the file of the store can be named, and others make these changes. -/
structure Workspace.Sound (K : Text → Prop) (changes : List Change) (w : Workspace) : Prop where
  document : w.store.document.Sound K
  path : ∀ path, w.store.path = some path → path.hasNull = false
  changes : w.afterCreate = changes

namespace Seed

/-- The fields of a task that attributes can set to one value. -/
def hintFields : List Text :=
  ["assignee", "priority", "task_type", "effort", "due_date"].map String.toList

theorem mem_hintFields {name field : Text} (h : hintName? name = some field) :
    field ∈ hintFields := by
  obtain ⟨entry, hentry, hfound⟩ := List.exists_of_findSome?_eq_some h
  split at hfound
  · rw [← Option.some.inj hfound]
    fin_cases hentry <;> decide
  · cases hfound

/-- A field that no attribute sets is not among the hints. -/
theorem not_mem_hints {field : Text} (hfield : field ∉ hintFields) {seed : Seed}
    (h : field ∉ seed.hints.names) (attributes : Attributes) :
    field ∉ (attributes.foldl add seed).hints.names := by
  induction attributes generalizing seed with
  | nil => exact h
  | cons given rest ih =>
    refine ih ?_
    rw [add]
    split
    · rename_i name hname
      intro hmem
      obtain ⟨hint, hhint, rfl⟩ := List.mem_map.1 hmem
      rcases Fields.mem_set hhint with hold | rfl
      · exact h (List.mem_map_of_mem hold)
      · exact hfield (mem_hintFields hname)
    · split <;> exact h

/-- Attributes do not say what a task refers to. -/
theorem referencesName_not_mem_fields (title : Text) (attributes : Attributes) :
    Document.referencesName ∉ (ofAttributes title attributes).fields.names := by
  rw [fields, Fields.names, List.map_append, List.map_append, List.mem_append, List.mem_append]
  rintro ((h | h) | h)
  · rw [List.map_cons, List.mem_cons] at h
    rcases h with h | h
    · exact absurd h (by decide : Document.referencesName ≠ "title".toList)
    · rw [List.map_map] at h
      exact not_mem_hints (by decide) List.not_mem_nil attributes h
  · split at h
    · cases h
    · exact absurd (List.mem_singleton.1 h) (by decide : Document.referencesName ≠ "tags".toList)
  · split at h
    · cases h
    · exact absurd (List.mem_singleton.1 h)
        (by decide : Document.referencesName ≠ "custom_fields".toList)

end Seed

namespace Tasks

variable {K : Text → Prop} {changes : List Change} {w : Workspace}

/-- Saving fails on the file of the store only, and keeps what the document says. -/
theorem guarded_save (hw : w.Sound K changes) :
    GuardedAt (Workspace.Sound K changes) (fun e => e.isStore = true) save w := by
  refine .bindGet ?_
  split
  · exact .pure _ hw
  · rename_i path hpath
    have hnull := hw.path path hpath
    have hparent : path.parent.hasNull = false := by
      rw [Path.hasNull, List.any_eq_false] at hnull ⊢
      exact fun name hname => hnull name (List.dropLast_subset _ hname)
    have hmake : ∀ disk : Disk,
        FailsOnly (fun e => ∃ error, e = .file error) (disk.makeDirectories path.parent).1 := by
      intro disk
      rw [Disk.makeDirectories, hparent, if_neg Bool.false_ne_true]
      split
      · exact .error ⟨_, rfl⟩
      · exact .ok _
    refine GuardedAt.tryCatch ?_ fun e v (he : ∃ error, e = .file error) hv => ?_
    · refine (GuardedAt.onDisk ⟨hw.document, hw.path, hw.changes⟩ (hmake _)).andThen fun _ v hv => ?_
      refine guarded_bindDocument (.bindGet ?_)
      obtain ⟨stamped, hstamp, hsound⟩ := hv.document.stamp v.now
      have hask : ask (.ok stamped) = (pure stamped : Work Document) := rfl
      rw [hstamp, hask, pure_bind]
      refine (GuardedAt.modify _ ⟨hsound, hv.path, hv.changes⟩).andThen fun _ v hv => ?_
      refine guarded_bindDocument (GuardedAt.onDisk ⟨hv.document, hv.path, hv.changes⟩ ?_)
      exact v.disk.write_failsOnly hnull _
    · obtain ⟨error, rfl⟩ := he
      exact .throw hv rfl

theorem guarded_enter (call : StoreCall) (hw : w.Sound K changes) :
    GuardedAt (Workspace.Sound K changes) (fun e => e.isStore = true) (enter call) w := by
  have hcalled : ({ w with calls := w.calls + 1 } : Workspace).Sound K changes :=
    ⟨hw.document, hw.path, hw.changes⟩
  have hrun := run_enter call w
  split at hrun
  · exact .of_run hrun hcalled (.ok _)
  · exact .of_run hrun hcalled (.error rfl)

theorem guarded_anchors (key : Text) (hw : w.Sound K changes) :
    GuardedAt (Workspace.Sound K changes) (fun e => K key → e.isStore = true) (anchors key) w := by
  refine guarded_bindDocument (.ofExcept hw fun e he hkey => ?_)
  obtain ⟨as, has⟩ := (hw.document.tasks key hkey).exists_anchors
  rw [has] at he
  cases he

/-- Recording an anchor of a task that takes anchors fails for the store's own reasons only. -/
theorem guarded_append (key : Text) (anchor : Anchor) (hw : w.Sound K changes) :
    GuardedAt (Workspace.Sound K changes) (fun e => K key → e.isStore = true) (append key anchor)
      w := by
  refine ((guarded_enter .append hw).mono fun _ he _ => he).andThen fun _ v hv => ?_
  refine guarded_bindDocument (.bindGet ?_)
  have hadd : FailsOnly (fun e => K key → e.isStore = true)
      (v.store.document.addAnchor key anchor v.now) :=
    fun e he hkey => (hv.document.tasks key hkey).addAnchor_failsOnly anchor v.now e he
  refine (GuardedAt.ofExcept hv hadd).bind fun answer u hanswer hu => ?_
  obtain ⟨hanswer, rfl⟩ := yields_ofExcept.1 hanswer
  split
  · exact .pure _ hu
  · refine (GuardedAt.modify _ ⟨hu.document.addAnchor hanswer, hu.path, hu.changes⟩).andThen
      fun _ v hv => ?_
    exact (guarded_save hv).mono fun _ he _ => he

theorem guarded_remove (key : Text) (anchor : Anchor) (hw : w.Sound K changes) :
    GuardedAt (Workspace.Sound K changes) (fun e => K key → e.isStore = true) (remove key anchor)
      w := by
  refine ((guarded_enter .remove hw).mono fun _ he _ => he).andThen fun _ v hv => ?_
  refine guarded_bindDocument (.bindGet ?_)
  have hremove : FailsOnly (fun e => K key → e.isStore = true)
      ((v.store.document.removeAnchor key anchor v.now).mapError .document) := by
    intro e he hkey
    obtain ⟨answer, hanswer⟩ := (hv.document.tasks key hkey).exists_removeAnchor anchor v.now
    rw [hanswer] at he
    cases he
  refine (GuardedAt.ofExcept hv hremove).bind fun answer u hanswer hu => ?_
  obtain ⟨hanswer, rfl⟩ := yields_ask.1 hanswer
  split
  · exact .pure _ hu
  · refine (GuardedAt.modify _ ⟨hu.document.removeAnchor hanswer, hu.path, hu.changes⟩).andThen
      fun _ v hv => ?_
    exact ((guarded_save hv).mono fun _ he _ => he).andThen fun _ _ hu => .pure _ hu

/-- Creating a task fails for the store's own reasons only, unless others get in the way. -/
theorem guarded_create (title : Text) (attributes : Attributes) (hw : w.Sound K changes) :
    GuardedAt (Workspace.Sound K changes) (fun e => changes = [] → e.isStore = true)
      (create (Seed.ofAttributes title attributes).fields) w := by
  refine ((guarded_enter _ hw).mono fun _ he _ => he).andThen fun _ v hv => .bindGet ?_
  obtain ⟨⟨key, minted⟩, hmint⟩ := Document.mint_ok hv.document.header v.store.project
  have hask : ask (.ok (key, minted)) = (pure (key, minted) : Work (Text × Document)) := rfl
  rw [hmint, hask, pure_bind]
  have hreferences : Document.referencesName ∉ Fields.names
      ((Seed.ofAttributes title attributes).fields.filter fun field => !field.2.isBlank) :=
    fun hmem => Seed.referencesName_not_mem_fields title attributes
      ((List.filter_sublist.map _).subset hmem)
  obtain ⟨fields, htask, hopen⟩ := Document.openReferences_newTask key v.now hreferences
  dsimp only
  rw [htask]
  refine (GuardedAt.modify _ ⟨(hv.document.mint hmint).put key hopen, hv.path, hv.changes⟩).andThen
    fun _ v hv => ?_
  refine ((guarded_save hv).attempt.mono fun _ he _ => he.1).andThen fun answer v hv => ?_
  split
  · refine guarded_bindDocument (GuardedAt.andThen (.modify _ ?_)
      fun _ u hu => .throw hu fun _ => rfl)
    exact ⟨hv.document.erase key, hv.path, hv.changes⟩
  · refine GuardedAt.andThen (.bindGet ?_) fun _ u hu => .pure _ hu
    rw [hv.changes]
    refine GuardedAt.onDisk ⟨hv.document, hv.path, hv.changes⟩ fun e he hnone => ?_
    subst hnone
    cases he

end Tasks

namespace Reconciler

variable {K : Text → Prop} {changes : List Change} {w : Workspace} (reconciler : Reconciler)

theorem guarded_pruneFile (key : Text) (keep : Anchor) (as : List Anchor)
    (hw : w.Sound K changes) :
    GuardedAt (Workspace.Sound K changes) (fun e => K key → e.isStore = true)
      (reconciler.pruneFile key keep as) w := by
  induction as generalizing w with
  | nil => exact .pure _ hw
  | cons anchor rest ih =>
    have hrest : ∀ (pruned : Bool) v, v.Sound K changes →
        GuardedAt (Workspace.Sound K changes) (fun e => K key → e.isStore = true) (do
          let others ← reconciler.pruneFile key keep rest
          return others + pruned.toNat) v :=
      fun _ _ hv => (ih hv).andThen fun _ _ hu => .pure _ hu
    rw [pruneFile]
    split
    · split
      · exact hrest true w hw
      · exact (Tasks.guarded_remove key anchor hw).andThen fun pruned v hv => hrest pruned v hv
    · exact hrest false w hw

theorem guarded_confirm (key : Text) (anchor : Anchor) (hw : w.Sound K changes) :
    GuardedAt (Workspace.Sound K changes) (fun e => K key → e.isStore = true)
      (reconciler.confirm key anchor) w := by
  refine (GuardedAt.modify _ ⟨hw.document, hw.path, hw.changes⟩).andThen fun _ v hv => ?_
  refine (Tasks.guarded_anchors key hv).andThen fun as v hv => ?_
  refine (guarded_pruneFile reconciler key anchor as hv).andThen fun pruned v hv => ?_
  dsimp only
  split
  · exact (Tasks.guarded_append key anchor hv).andThen fun _ _ hu => .pure _ hu
  · exact .pure _ hv

end Reconciler

end TodoTracker
