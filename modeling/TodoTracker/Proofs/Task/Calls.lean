import TodoTracker.Proofs.Task.Anchors
import TodoTracker.Proofs.Workspace.Yields
import TodoTracker.Task.Calls

/-!
# What calls of the task store leave alone

A call that succeeds changes the anchors of the task that it is about and no others. It may save
the document, which makes the directory of the task file and writes the file; a path where saving
has no effect is undisturbed by every sequence of calls.
-/

set_option autoImplicit false

namespace TodoTracker

/-- The disks that come from a disk by saving documents in a file, if there is one to save in. -/
inductive Disk.SavedFrom (file : Option Path) (disk : Disk) : Disk → Prop
  | start : SavedFrom file disk disk
  | directories {saved : Disk} {path : Path} (hfile : file = some path)
      (h : SavedFrom file disk saved) : SavedFrom file disk (saved.makeDirectories path.parent).2
  | write {saved : Disk} {path : Path} (hfile : file = some path) (h : SavedFrom file disk saved)
      (text : Text) : SavedFrom file disk (saved.write path text).2

theorem Disk.SavedFrom.trans {file : Option Path} {d d' d'' : Disk} (h : SavedFrom file d d')
    (h' : SavedFrom file d' d'') : SavedFrom file d d'' := by
  induction h' with
  | start => exact h
  | directories hfile _ ih => exact .directories hfile ih
  | write hfile _ text ih => exact .write hfile ih text

/-- Two trees give the same location, existence and text at a path. -/
structure FileTree.AgreeAt (tree tree' : FileTree) (path : Path) : Prop where
  resolve : tree'.resolve path = tree.resolve path
  existsAt : tree'.existsAt path = tree.existsAt path
  readText : tree'.readText path = tree.readText path

namespace Workspace

/-- The anchors of a key in the document of the task store. -/
def anchors (w : Workspace) (key : Text) : Except DocumentFlaw (List Anchor) :=
  w.store.document.anchors key

/-- Saving the task document does not change what is found at a path. -/
def Undisturbed (w : Workspace) (path : Path) : Prop :=
  ∀ disk, Disk.SavedFrom w.store.path w.disk disk → w.disk.tree.AgreeAt disk.tree path

theorem undisturbed_of_no_file {w : Workspace} (h : w.store.path = none) (path : Path) :
    w.Undisturbed path := by
  intro disk hdisk
  rw [h] at hdisk
  cases hdisk with
  | start => exact ⟨rfl, rfl, rfl⟩
  | directories hfile => cases hfile
  | write hfile => cases hfile

/-- A workspace with files and tasks, where the tasks are kept in memory only. -/
def inMemory (tree : FileTree) (tasks : TaskMap) : Workspace where
  disk := .ofTree tree
  store := ⟨none, "PROJ".toList, ⟨[], tasks, []⟩⟩
  now := []
  git := none
  sightings := {}
  progress := []
  calls := 0
  refusals := fun _ _ => none
  afterCreate := []

theorem undisturbed_inMemory (tree : FileTree) (tasks : TaskMap) (path : Path) :
    (inMemory tree tasks).Undisturbed path :=
  undisturbed_of_no_file rfl path

/-- The disk has changed by saving only, and the same keys have tasks, whose references can be gone
through if they could be before. -/
structure Saved (w w' : Workspace) : Prop where
  path : w'.store.path = w.store.path
  disk : Disk.SavedFrom w.store.path w.disk w'.disk
  keys : w'.store.document.tasks.keys = w.store.document.tasks.keys
  legible : w.store.document.Legible → w'.store.document.Legible

theorem Saved.of_eq {w w' : Workspace} (hdisk : w'.disk = w.disk) (hstore : w'.store = w.store) :
    w.Saved w' :=
  ⟨by rw [hstore], by rw [hdisk]; exact .start, by rw [hstore], by rw [hstore]; exact id⟩

theorem Saved.trans {w w' w'' : Workspace} (h : w.Saved w') (h' : w'.Saved w'') : w.Saved w'' :=
  ⟨h'.path.trans h.path, h.disk.trans (h.path ▸ h'.disk), h'.keys.trans h.keys,
    fun hlegible => h'.legible (h.legible hlegible)⟩

theorem Saved.agreeAt {w w' : Workspace} {path : Path} (h : w.Saved w')
    (hu : w.Undisturbed path) : w.disk.tree.AgreeAt w'.disk.tree path :=
  hu w'.disk h.disk

theorem Saved.undisturbed {w w' : Workspace} {path : Path} (h : w.Saved w')
    (hu : w.Undisturbed path) : w'.Undisturbed path := by
  intro disk hdisk
  have hw := h.agreeAt hu
  have hd := hu disk (h.disk.trans (h.path ▸ hdisk))
  exact ⟨hd.resolve.trans hw.resolve.symm, hd.existsAt.trans hw.existsAt.symm,
    hd.readText.trans hw.readText.symm⟩

/-- The disk has changed by saving only, and what was confirmed and sighted last is the same. -/
structure Onward (w w' : Workspace) : Prop where
  saved : w.Saved w'
  confirmed : w'.sightings.confirmed = w.sightings.confirmed
  latest : w'.sightings.latest = w.sightings.latest

theorem Onward.refl (w : Workspace) : w.Onward w := ⟨.of_eq rfl rfl, rfl, rfl⟩

theorem Onward.trans {w w' w'' : Workspace} (h : w.Onward w') (h' : w'.Onward w'') :
    w.Onward w'' :=
  ⟨h.saved.trans h'.saved, h'.confirmed.trans h.confirmed, h'.latest.trans h.latest⟩

end Workspace

namespace Tasks

open Work

theorem yields_asWriteError {α : Type} {path : Path} {work : Work α} {a : α} {w w' : Workspace}
    (h : (asWriteError path work).Yields w a w') : work.Yields w a w' := by
  rw [asWriteError, yields_tryCatch] at h
  rcases h with h | ⟨e, v, -, h⟩
  · exact h
  · split at h <;> exact absurd h not_yields_throw

theorem yields_enter {call : StoreCall} {u : Unit} {w w' : Workspace}
    (h : (enter call).Yields w u w') : w' = { w with calls := w.calls + 1 } := by
  rw [enter, yields_bind] at h
  obtain ⟨v, w₁, hget, h⟩ := h
  obtain ⟨rfl, rfl⟩ := yields_get.1 hget
  obtain ⟨_, w₂, hset, h⟩ := yields_bind.1 h
  have hw₂ := yields_set.1 hset
  split at h
  · exact (yields_pure.1 h).2 ▸ hw₂
  · exact absurd h not_yields_throw

theorem yields_document {doc : Document} {w w' : Workspace} :
    document.Yields w doc w' ↔ doc = w.store.document ∧ w' = w := by
  rw [document, yields_bind]
  constructor
  · rintro ⟨v, w₁, hget, h⟩
    obtain ⟨rfl, rfl⟩ := yields_get.1 hget
    obtain ⟨rfl, rfl⟩ := yields_pure.1 h
    exact ⟨rfl, rfl⟩
  · rintro ⟨rfl, rfl⟩
    exact ⟨_, _, yields_get.2 ⟨rfl, rfl⟩, yields_pure.2 ⟨rfl, rfl⟩⟩

theorem yields_setDocument {doc : Document} {u : Unit} {w w' : Workspace} :
    (setDocument doc).Yields w u w' ↔
      w' = { w with store := { w.store with document := doc } } :=
  yields_modify

theorem yields_ask {α : Type} {answer : Except DocumentFlaw α} {a : α} {w w' : Workspace} :
    (ask answer).Yields w a w' ↔ answer = .ok a ∧ w' = w := by
  rw [ask, yields_ofExcept]
  constructor
  · rintro ⟨h, rfl⟩
    exact ⟨mapError_eq_ok h, rfl⟩
  · rintro ⟨rfl, rfl⟩
    exact ⟨rfl, rfl⟩

/-- Saving changes no task. -/
theorem yields_save {u : Unit} {w w' : Workspace} (h : save.Yields w u w') :
    w.Onward w' ∧ w'.store.document.tasks = w.store.document.tasks := by
  rw [save, yields_bind] at h
  obtain ⟨v, w₁, hget, h⟩ := h
  obtain ⟨rfl, rfl⟩ := yields_get.1 hget
  split at h
  · obtain ⟨-, rfl⟩ := yields_pure.1 h
    exact ⟨.refl _, rfl⟩
  · rename_i path hpath
    obtain ⟨_, w₂, hmake, h⟩ := yields_bind.1 (yields_asWriteError h)
    obtain ⟨-, rfl⟩ := yields_onDisk.1 hmake
    obtain ⟨doc, w₃, hdoc, h⟩ := yields_bind.1 h
    obtain ⟨rfl, rfl⟩ := yields_document.1 hdoc
    obtain ⟨v, w₄, hget, h⟩ := yields_bind.1 h
    obtain ⟨rfl, rfl⟩ := yields_get.1 hget
    obtain ⟨stamped, w₅, hask, h⟩ := yields_bind.1 h
    obtain ⟨hstamp, rfl⟩ := yields_ask.1 hask
    obtain ⟨_, w₆, hset, h⟩ := yields_bind.1 h
    obtain rfl := yields_setDocument.1 hset
    obtain ⟨doc, w₇, hdoc, h⟩ := yields_bind.1 h
    obtain ⟨rfl, rfl⟩ := yields_document.1 hdoc
    obtain ⟨-, rfl⟩ := yields_onDisk.1 h
    have htasks := Document.tasks_stamp hstamp
    refine ⟨⟨⟨rfl, ?_, congrArg TaskMap.keys htasks, fun h => h.congr htasks⟩, rfl, rfl⟩, htasks⟩
    exact .write hpath (.directories hpath .start) _

/-- What a call about a key did: the tasks apart, everything is as before or was saved. -/
structure Touched (key : Text) (w w' : Workspace) : Prop where
  onward : w.Onward w'
  others : ∀ other, other ≠ key → w'.anchors other = w.anchors other

theorem Touched.refl (key : Text) (w : Workspace) : Touched key w w :=
  ⟨.refl w, fun _ _ => rfl⟩

theorem Touched.trans {key : Text} {w w' w'' : Workspace} (h : Touched key w w')
    (h' : Touched key w' w'') : Touched key w w'' :=
  ⟨h.onward.trans h'.onward, fun other hne => (h'.others other hne).trans (h.others other hne)⟩

/-- A workspace where a call has begun whose document is to be saved. -/
def changed (w : Workspace) (doc : Document) : Workspace :=
  { w with calls := w.calls + 1, store := { w.store with document := doc } }

theorem touched_of_save {key : Text} {u : Unit} {w w' : Workspace} {doc : Document}
    (hdoc : ∀ other, other ≠ key → doc.anchors other = w.anchors other)
    (hkeys : doc.tasks.keys = w.store.document.tasks.keys)
    (hlegible : w.store.document.Legible → doc.Legible) (h : save.Yields (changed w doc) u w') :
    Touched key w w' ∧ w'.anchors key = doc.anchors key := by
  obtain ⟨honward, htasks⟩ := yields_save h
  have hkey : ∀ other, w'.anchors other = doc.anchors other :=
    fun other => Document.anchors_congr htasks other
  have hsaved := honward.saved
  refine ⟨⟨⟨⟨hsaved.path, hsaved.disk, hsaved.keys.trans hkeys,
    fun hdoc => hsaved.legible (hlegible hdoc)⟩, honward.confirmed, honward.latest⟩, ?_⟩, hkey key⟩
  intro other hother
  rw [hkey other, hdoc other hother]

/-- An anchor that is there already is not recorded again; else the document with it is saved. -/
theorem of_append {key : Text} {anchor : Anchor} {u : Unit} {w w' : Workspace}
    (h : (append key anchor).Yields w u w') :
    w.store.document.addAnchor key anchor w.now = .ok none ∧ w' = { w with calls := w.calls + 1 } ∨
      ∃ doc, w.store.document.addAnchor key anchor w.now = .ok (some doc) ∧
        save.Yields (changed w doc) () w' := by
  rw [append, yields_bind] at h
  obtain ⟨_, w₁, henter, h⟩ := h
  obtain rfl := yields_enter henter
  obtain ⟨doc, w₂, hdoc, h⟩ := yields_bind.1 h
  obtain ⟨rfl, rfl⟩ := yields_document.1 hdoc
  obtain ⟨v, w₃, hget, h⟩ := yields_bind.1 h
  obtain ⟨rfl, rfl⟩ := yields_get.1 hget
  obtain ⟨answer, w₄, hof, h⟩ := yields_bind.1 h
  obtain ⟨hadd, rfl⟩ := yields_ofExcept.1 hof
  split at h
  · obtain ⟨-, rfl⟩ := yields_pure.1 h
    exact .inl ⟨hadd, rfl⟩
  · obtain ⟨_, w₅, hset, h⟩ := yields_bind.1 h
    obtain rfl := yields_setDocument.1 hset
    exact .inr ⟨_, hadd, h⟩

/-- A removal answers whether there is a document without the anchor, and saves that. -/
theorem of_remove {key : Text} {anchor : Anchor} {found : Bool} {w w' : Workspace}
    (h : (remove key anchor).Yields w found w') :
    w.store.document.removeAnchor key anchor w.now = .ok none ∧ found = false ∧
        w' = { w with calls := w.calls + 1 } ∨
      ∃ doc, w.store.document.removeAnchor key anchor w.now = .ok (some doc) ∧ found = true ∧
        save.Yields (changed w doc) () w' := by
  rw [remove, yields_bind] at h
  obtain ⟨_, w₁, henter, h⟩ := h
  obtain rfl := yields_enter henter
  obtain ⟨doc, w₂, hdoc, h⟩ := yields_bind.1 h
  obtain ⟨rfl, rfl⟩ := yields_document.1 hdoc
  obtain ⟨v, w₃, hget, h⟩ := yields_bind.1 h
  obtain ⟨rfl, rfl⟩ := yields_get.1 hget
  obtain ⟨answer, w₄, hask, h⟩ := yields_bind.1 h
  obtain ⟨hremove, rfl⟩ := yields_ask.1 hask
  split at h
  · obtain ⟨rfl, rfl⟩ := yields_pure.1 h
    exact .inl ⟨hremove, rfl, rfl⟩
  · obtain ⟨_, w₅, hset, h⟩ := yields_bind.1 h
    obtain rfl := yields_setDocument.1 hset
    obtain ⟨_, w₆, hsave, h⟩ := yields_bind.1 h
    obtain ⟨rfl, rfl⟩ := yields_pure.1 h
    exact .inr ⟨_, hremove, rfl, hsave⟩

/-- Recording an anchor puts it behind those of its task, unless it is there already. -/
theorem yields_append {key : Text} {anchor : Anchor} {u : Unit} {w w' : Workspace}
    (h : (append key anchor).Yields w u w') :
    Touched key w w' ∧ ∃ as, w.anchors key = .ok as ∧
      ((∀ b ∈ Document.readBack anchor, b ∈ as) ∧ w'.anchors key = .ok as ∨
        w'.anchors key = .ok (as ++ Document.readBack anchor)) := by
  rcases of_append h with ⟨hadd, rfl⟩ | ⟨doc, hadd, hsave⟩
  · obtain ⟨as, has, hback⟩ := Document.anchors_of_addAnchor_none hadd
    exact ⟨⟨⟨.of_eq rfl rfl, rfl, rfl⟩, fun _ _ => rfl⟩, as, has, .inl ⟨hback, has⟩⟩
  · obtain ⟨as, has, hafter⟩ := Document.anchors_addAnchor hadd
    obtain ⟨htouched, hkey⟩ := touched_of_save
      (fun _ hne => Document.anchors_addAnchor_of_ne hadd hne) (Document.keys_addAnchor hadd)
      (fun hdoc => hdoc.addAnchor hadd) hsave
    exact ⟨htouched, as, has, .inr (hkey.trans hafter)⟩

/-- Removing an anchor leaves the others of its task. -/
theorem yields_remove {key : Text} {anchor : Anchor} {found : Bool} {w w' : Workspace}
    (h : (remove key anchor).Yields w found w') :
    Touched key w w' ∧ ∃ as, w.anchors key = .ok as ∧
      w'.anchors key = .ok (as.filter (· ≠ anchor)) := by
  rcases of_remove h with ⟨hremove, -, rfl⟩ | ⟨doc, hremove, -, hsave⟩
  · obtain ⟨as, has, habsent⟩ := Document.anchors_of_removeAnchor_none hremove
    refine ⟨⟨⟨.of_eq rfl rfl, rfl, rfl⟩, fun _ _ => rfl⟩, as, has, ?_⟩
    have hfilter : as.filter (· ≠ anchor) = as := by
      rw [List.filter_eq_self]
      intro b hb
      simpa using fun hb' : b = anchor => habsent (hb' ▸ hb)
    rw [hfilter]
    exact has
  · obtain ⟨as, has, hafter⟩ := Document.anchors_removeAnchor hremove
    obtain ⟨htouched, hkey⟩ := touched_of_save
      (fun _ hne => Document.anchors_removeAnchor_of_ne hremove hne)
      (Document.keys_removeAnchor hremove) (fun hdoc => hdoc.removeAnchor hremove) hsave
    exact ⟨htouched, as, has, hkey.trans hafter⟩

/-- Removing an anchor answers whether it was recorded. -/
theorem answer_of_remove {key : Text} {anchor : Anchor} {found : Bool} {as : List Anchor}
    {w w' : Workspace} (h : (remove key anchor).Yields w found w') (has : w.anchors key = .ok as) :
    found = decide (anchor ∈ as) := by
  rcases of_remove h with ⟨hremove, rfl, -⟩ | ⟨doc, hremove, rfl, -⟩
  · exact Document.isSome_removeAnchor hremove has
  · exact Document.isSome_removeAnchor hremove has

/-- Work for one key after another leaves the anchors of all other keys alone. -/
theorem onward_of_mapM {β : Type} {f : Text → Work β} {keys : List Text} {bs : List β}
    {w w' : Workspace}
    (htouched : ∀ key v b v', (f key).Yields v b v' → Touched key v v')
    (h : (keys.mapM f).Yields w bs w') :
    w.Onward w' ∧ ∀ key ∉ keys, w'.anchors key = w.anchors key := by
  induction keys generalizing bs w with
  | nil =>
    obtain ⟨-, rfl⟩ := yields_pure.1 h
    exact ⟨.refl w, fun _ _ => rfl⟩
  | cons other keys ih =>
    obtain ⟨b, v, rest, hother, hrest, -⟩ := yields_mapM_cons.1 h
    have hfirst := htouched other w b v hother
    obtain ⟨honward, hkeys⟩ := ih hrest
    refine ⟨hfirst.onward.trans honward, fun key habsent => ?_⟩
    obtain ⟨hne, habsent⟩ := List.ne_and_not_mem_of_not_mem_cons habsent
    exact (hkeys key habsent).trans (hfirst.others key hne)

/-- Among work for one key after another the work for a key is done once; what comes before and
after leaves the anchors of the key alone. -/
theorem own_of_mapM {β : Type} {f : Text → Work β} {keys : List Text} {key : Text} {bs : List β}
    {w w' : Workspace}
    (htouched : ∀ key v b v', (f key).Yields v b v' → Touched key v v')
    (hnodup : keys.Nodup) (hmem : key ∈ keys) (h : (keys.mapM f).Yields w bs w') :
    ∃ w₁ w₂ b, w.Onward w₁ ∧ w₁.anchors key = w.anchors key ∧ (f key).Yields w₁ b w₂ ∧
      w'.anchors key = w₂.anchors key := by
  induction keys generalizing bs w with
  | nil => cases hmem
  | cons other keys ih =>
    obtain ⟨b, v, rest, hother, hrest, -⟩ := yields_mapM_cons.1 h
    obtain ⟨habsent, hnodup⟩ := List.nodup_cons.1 hnodup
    by_cases hkey : key = other
    · subst hkey
      exact ⟨w, v, b, .refl w, rfl, hother, (onward_of_mapM htouched hrest).2 key habsent⟩
    · have hfirst := htouched other w b v hother
      obtain ⟨w₁, w₂, own, honward, h₁, hown, h₂⟩ :=
        ih hnodup ((List.mem_cons.1 hmem).resolve_left hkey) hrest
      exact ⟨w₁, w₂, own, hfirst.onward.trans honward, h₁.trans (hfirst.others key hkey), hown, h₂⟩

theorem yields_anchors {key : Text} {as : List Anchor} {w w' : Workspace} :
    (anchors key).Yields w as w' ↔ w.anchors key = .ok as ∧ w' = w := by
  rw [anchors, yields_bind]
  constructor
  · rintro ⟨doc, w₁, hdoc, h⟩
    obtain ⟨rfl, rfl⟩ := yields_document.1 hdoc
    exact yields_ask.1 h
  · rintro ⟨h, rfl⟩
    exact ⟨_, _, yields_document.2 ⟨rfl, rfl⟩, yields_ask.2 ⟨h, rfl⟩⟩

theorem yields_anchored {keys : List Text} {w w' : Workspace} :
    anchored.Yields w keys w' ↔ w.store.document.anchoredKeys = .ok keys ∧ w' = w := by
  rw [anchored, yields_bind]
  constructor
  · rintro ⟨doc, w₁, hdoc, h⟩
    obtain ⟨rfl, rfl⟩ := yields_document.1 hdoc
    exact yields_ask.1 h
  · rintro ⟨h, rfl⟩
    exact ⟨_, _, yields_document.2 ⟨rfl, rfl⟩, yields_ask.2 ⟨h, rfl⟩⟩

end Tasks

end TodoTracker
