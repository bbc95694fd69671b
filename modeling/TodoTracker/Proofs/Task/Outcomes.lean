import TodoTracker.Proofs.Files.Foreign
import TodoTracker.Proofs.Task.Calls

/-!
# Calls of the task store that may fail

What a call leaves, whether it succeeds or not. A call that is refused, or whose document has the
wrong form, changes nothing but the number of calls; after that only saving can fail, and the
document stays changed when it does.
-/

set_option autoImplicit false

namespace TodoTracker

open Work

namespace Document

/-- Where the anchors of a key can be read, each of them can be removed. -/
theorem exists_removeAnchor {doc : Document} {key : Text} {as : List Anchor}
    (h : doc.anchors key = .ok as) (anchor : Anchor) (now : Text) :
    ∃ answer, doc.removeAnchor key anchor now = .ok answer := by
  rw [anchors] at h
  rw [removeAnchor]
  split at h
  · exact ⟨none, rfl⟩
  · rename_i task htask
    obtain ⟨items, hitems, -⟩ := bind_eq_ok h
    dsimp only
    rw [hitems]
    by_cases hlen : (items.filter fun item => Anchor.ofReference? item != some anchor).length =
        items.length
    · exact ⟨none, if_pos hlen⟩
    · exact ⟨_, if_neg hlen⟩

/-- A document that has changed the task of one key. -/
structure Rewritten (key : Text) (doc doc' : Document) : Prop where
  others : ∀ other, other ≠ key → doc'.tasks.task? other = doc.tasks.task? other
  task : doc'.tasks.task? key ≠ none
  keys : doc.tasks.keys ⊆ doc'.tasks.keys

theorem rewritten_put (doc : Document) (key : Text) (fields : Fields Json) (items : List Json)
    (now : Text) : Rewritten key doc (doc.put key (withReferences fields items now)) := by
  refine ⟨fun other hne => TaskMap.task?_insert_of_ne _ _ hne, ?_,
    fun other hother => TaskMap.mem_keys_insert.2 (.inr hother)⟩
  have hput : (doc.put key (withReferences fields items now)).tasks.task? key =
      some (withReferences fields items now) := TaskMap.task?_insert_object _ _ _
  rw [hput]
  exact Option.some_ne_none _

theorem rewritten_addAnchor {doc doc' : Document} {key now : Text} {anchor : Anchor}
    (hadd : doc.addAnchor key anchor now = .ok (some doc')) : Rewritten key doc doc' := by
  obtain ⟨fields, items, -, -, hanswer⟩ := addAnchor_eq_ok hadd
  split at hanswer
  · cases hanswer
  · cases hanswer
    exact rewritten_put _ _ _ _ _

theorem rewritten_removeAnchor {doc doc' : Document} {key now : Text} {anchor : Anchor}
    (hremove : doc.removeAnchor key anchor now = .ok (some doc')) : Rewritten key doc doc' := by
  rcases removeAnchor_eq_ok hremove with ⟨-, hanswer⟩ | ⟨fields, items, -, -, hanswer⟩
  · cases hanswer
  · split at hanswer
    · cases hanswer
    · cases hanswer
      exact rewritten_put _ _ _ _ _

end Document

namespace Tasks

theorem run_document (w : Workspace) : document.run w = (.ok w.store.document, w) := rfl

theorem run_setDocument (doc : Document) (w : Workspace) :
    (setDocument doc).run w = (.ok (), { w with store := { w.store with document := doc } }) := rfl

theorem run_ask {α : Type} (answer : Except DocumentFlaw α) (w : Workspace) :
    (ask answer).run w = (answer.mapError .document, w) :=
  run_ofExcept _ _

theorem run_enter (call : StoreCall) (w : Workspace) :
    (enter call).run w = match w.refusals w.calls call with
      | none => (.ok (), { w with calls := w.calls + 1 })
      | some text => (.error (.store (.refused text)), { w with calls := w.calls + 1 }) := by
  rw [enter, run_bind]
  change (match w.refusals w.calls call with
      | none => pure ()
      | some text => throw (Failure.store (StoreError.refused text)) : Work Unit).run _ = _
  cases w.refusals w.calls call <;> rfl

/-- Without a file there is nothing to save. -/
theorem run_save_of_no_file {w : Workspace} (h : w.store.path = none) :
    save.run w = (.ok (), w) := by
  rw [save, run_bind, run_get]
  dsimp only
  rw [h]
  rfl

/-- Removing an anchor is refused, finds the references in the wrong form, has nothing to do, or
saves what is left. -/
theorem run_remove (key : Text) (anchor : Anchor) (w : Workspace) :
    (remove key anchor).run w = match w.refusals w.calls .remove with
      | some text => (.error (.store (.refused text)), { w with calls := w.calls + 1 })
      | none => match w.store.document.removeAnchor key anchor w.now with
        | .error flaw => (.error (.document flaw), { w with calls := w.calls + 1 })
        | .ok none => (.ok false, { w with calls := w.calls + 1 })
        | .ok (some doc) => ((fun _ => true) <$> save).run (changed w doc) := by
  rw [remove, run_bind, run_enter]
  cases w.refusals w.calls .remove with
  | some text => rfl
  | none =>
    simp only [run_bind, run_document, run_get, run_ask]
    cases w.store.document.removeAnchor key anchor w.now with
    | error flaw => rfl
    | ok answer =>
      cases answer with
      | none => rfl
      | some doc =>
        simp only [Except.mapError, run_bind, run_setDocument, run_map]
        rfl

/-- Recording an anchor is refused, finds no task or one in the wrong form, has nothing to do, or
saves the task with the anchor. -/
theorem run_append (key : Text) (anchor : Anchor) (w : Workspace) :
    (append key anchor).run w = match w.refusals w.calls .append with
      | some text => (.error (.store (.refused text)), { w with calls := w.calls + 1 })
      | none => match w.store.document.addAnchor key anchor w.now with
        | .error e => (.error e, { w with calls := w.calls + 1 })
        | .ok none => (.ok (), { w with calls := w.calls + 1 })
        | .ok (some doc) => save.run (changed w doc) := by
  rw [append, run_bind, run_enter]
  cases w.refusals w.calls .append with
  | some text => rfl
  | none =>
    simp only [run_bind, run_document, run_get, run_ofExcept]
    cases w.store.document.addAnchor key anchor w.now with
    | error e => rfl
    | ok answer =>
      cases answer with
      | none => rfl
      | some doc => rfl

variable {w v : Workspace}

theorem guarded_bindDocument {α : Type} {P : Workspace → Prop} {E : Failure → Prop}
    {f : Document → Work α} (h : GuardedAt P E (f w.store.document) w) :
    GuardedAt P E (document >>= f) w :=
  .congr (by rw [run_bind, run_document]) h

/-- What a call about a key leaves, whether it succeeds or not: the tasks of the other keys are as
they were, and the key has a task if it had one. -/
structure Called (key : Text) (w v : Workspace) : Prop where
  refusals : v.refusals = w.refusals
  calls : w.calls ≤ v.calls
  path : v.store.path = w.store.path
  others : ∀ other, other ≠ key →
    v.store.document.tasks.task? other = w.store.document.tasks.task? other
  kept : w.store.document.tasks.task? key ≠ none → v.store.document.tasks.task? key ≠ none
  keys : w.store.document.tasks.keys ⊆ v.store.document.tasks.keys

theorem Called.refl (key : Text) (w : Workspace) : Called key w w :=
  ⟨rfl, Nat.le_refl _, rfl, fun _ _ => rfl, id, List.Subset.refl _⟩

theorem Called.trans {key : Text} {u : Workspace} (h : Called key w v) (h' : Called key v u) :
    Called key w u :=
  ⟨h'.refusals.trans h.refusals, Nat.le_trans h.calls h'.calls, h'.path.trans h.path,
    fun other hne => (h'.others other hne).trans (h.others other hne),
    fun hkey => h'.kept (h.kept hkey), List.Subset.trans h.keys h'.keys⟩

theorem Called.of_tasks {key : Text} {disk : Disk} {calls : Nat} {doc : Document}
    (hcalls : w.calls ≤ calls) (hdoc : doc.tasks = w.store.document.tasks) :
    Called key w { w with disk, calls, store := { w.store with document := doc } } :=
  ⟨rfl, hcalls, rfl, fun _ _ => by rw [hdoc], fun h => by rw [hdoc]; exact h,
    fun _ h => by rw [hdoc]; exact h⟩

/-- A failure that is not the store's, or a document that could not be written. -/
def Unsaved (w : Workspace) (e : Failure) : Prop :=
  e.IsForeign ∨ ∃ path flaw, w.store.path = some path ∧ e = .store (.write path.text flaw)

theorem called_save (key : Text) (w : Workspace) : GuardedAt (Called key w) (Unsaved w) save w := by
  refine .bindGet ?_
  split
  · exact .pure _ (.refl key w)
  · rename_i path hpath
    refine GuardedAt.tryCatch ?_ fun e v (he : e.IsForeign) hv => ?_
    · refine (GuardedAt.onDisk (.of_tasks (Nat.le_refl _) rfl)
        (w.disk.foreign_makeDirectories _)).bind fun _ v hmake _ => ?_
      obtain ⟨-, rfl⟩ := yields_onDisk.1 hmake
      refine guarded_bindDocument (.bindGet ?_)
      have hstamp : Foreign ((w.store.document.stamp w.now).mapError .document) :=
        .mapError fun _ => rfl
      refine (GuardedAt.ofExcept (.of_tasks (Nat.le_refl _) rfl) hstamp).bind
        fun stamped v hask _ => ?_
      obtain ⟨hstamp, rfl⟩ := yields_ask.1 hask
      have htasks := Document.tasks_stamp hstamp
      refine (GuardedAt.modify _ (.of_tasks (Nat.le_refl _) htasks)).bind fun _ v hset _ => ?_
      obtain rfl := yields_modify.1 hset
      exact guarded_bindDocument (GuardedAt.onDisk (.of_tasks (Nat.le_refl _) htasks)
        (Disk.foreign_write _ path _))
    · split
      · exact .throw hv (.inr ⟨path, _, hpath, rfl⟩)
      · exact .throw hv (.inl he)

/-- Why a call that records or removes an anchor of a key has failed. -/
def Blames (key : Text) (w : Workspace) (e : Failure) : Prop :=
  Unsaved w e ∨ (∃ call text, (call = .append ∨ call = .remove) ∧
    w.refusals w.calls call = some text ∧ e = .store (.refused text)) ∨
  w.store.document.tasks.task? key = none ∧ e = .store (.notFound key)

theorem Called.of_rewritten {key : Text} {disk : Disk} {calls : Nat} {doc : Document}
    (hcalls : w.calls ≤ calls) (hdoc : w.store.document.Rewritten key doc) :
    Called key w { w with disk, calls, store := { w.store with document := doc } } :=
  ⟨rfl, hcalls, rfl, hdoc.others, fun _ => hdoc.task, hdoc.keys⟩

theorem called_enter {call : StoreCall} (key : Text) (w : Workspace)
    (hcall : call = .append ∨ call = .remove) :
    GuardedAt (Called key w) (Blames key w) (enter call) w := by
  have hcalled : Called key w { w with calls := w.calls + 1 } :=
    .of_tasks (Nat.le_add_right _ _) rfl
  have hrun := run_enter call w
  split at hrun
  · exact .of_run hrun hcalled (.ok _)
  · rename_i text hrefused
    exact .of_run hrun hcalled (.error (.inr (.inl ⟨call, text, hcall, hrefused, rfl⟩)))

/-- What recording an anchor leaves, and why it fails. -/
theorem called_append (key : Text) (anchor : Anchor) (w : Workspace) :
    GuardedAt (Called key w) (Blames key w) (append key anchor) w := by
  refine (called_enter key w (.inl rfl)).bind fun _ v henter hcalled => ?_
  obtain rfl := yields_enter henter
  refine guarded_bindDocument (.bindGet ?_)
  have hadd : FailsOnly (Blames key w) (w.store.document.addAnchor key anchor w.now) := by
    rw [Document.addAnchor]
    split
    · exact .error (.inr (.inr ⟨by assumption, rfl⟩))
    · have hopen : ∀ fields, FailsOnly (Blames key w)
          ((Document.openReferences fields).mapError .document) :=
        fun _ => .mapError fun _ => .inl (.inl rfl)
      exact (hopen _).bind fun references _ => .ite (fun _ => .ok _) fun _ => .ok _
    · exact .error (.inl (.inl rfl))
  refine (GuardedAt.ofExcept hcalled hadd).bind fun answer v hyields hv => ?_
  obtain ⟨hanswer, rfl⟩ := yields_ofExcept.1 hyields
  cases answer with
  | none => exact .pure _ hv
  | some doc =>
    have hdoc : Called key w (changed w doc) :=
      .of_rewritten (Nat.le_add_right _ _) (Document.rewritten_addAnchor hanswer)
    refine (GuardedAt.modify _ hdoc).bind fun _ v hset _ => ?_
    obtain rfl := yields_modify.1 hset
    exact (called_save key (changed w doc)).imp (fun _ hv => hdoc.trans hv) fun _ he => .inl he

/-- What removing an anchor leaves, and why it fails. -/
theorem called_remove (key : Text) (anchor : Anchor) (w : Workspace) :
    GuardedAt (Called key w) (Blames key w) (remove key anchor) w := by
  refine (called_enter key w (.inr rfl)).bind fun _ v henter hcalled => ?_
  obtain rfl := yields_enter henter
  refine guarded_bindDocument (.bindGet ?_)
  have hremove : FailsOnly (Blames key w)
      ((w.store.document.removeAnchor key anchor w.now).mapError .document) :=
    .mapError fun _ => .inl (.inl rfl)
  refine (GuardedAt.ofExcept hcalled hremove).bind fun answer v hyields hv => ?_
  obtain ⟨hanswer, rfl⟩ := yields_ask.1 hyields
  cases answer with
  | none => exact .pure _ hv
  | some doc =>
    have hdoc : Called key w (changed w doc) :=
      .of_rewritten (Nat.le_add_right _ _) (Document.rewritten_removeAnchor hanswer)
    refine (GuardedAt.modify _ hdoc).bind fun _ v hset _ => ?_
    obtain rfl := yields_modify.1 hset
    exact ((called_save key (changed w doc)).imp (fun _ hv => hdoc.trans hv)
      fun _ he => .inl he).andThen fun _ _ hu => .pure _ hu

end Tasks

end TodoTracker
