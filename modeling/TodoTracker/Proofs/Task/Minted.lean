import TodoTracker.Proofs.Task.Calls
import TodoTracker.Proofs.Text.Numeral

/-!
# The keys of new tasks

Numbers give different keys, so the search for a free one ends at a key that no task has. Creating a
task adds its key to those that have tasks, and takes none away.
-/

set_option autoImplicit false

namespace TodoTracker

namespace Text

theorem ofNat_injective {m n : Nat} (h : ofNat m = ofNat n) : m = n := by
  rw [← digitsValue_ofNat m, h, digitsValue_ofNat]

theorem hyphen_cons_ne_ofNat (t : Text) (n : Nat) : '-' :: t ≠ ofNat n := by
  intro h
  have hdigit := asciiDigit_of_mem_ofNat (h ▸ List.mem_cons_self : '-' ∈ ofNat n)
  revert hdigit
  decide

theorem ofInt_injective {m n : Int} (h : ofInt m = ofInt n) : m = n := by
  cases m with
  | ofNat m =>
    cases n with
    | ofNat n => exact congrArg Int.ofNat (ofNat_injective h)
    | negSucc n => exact absurd h.symm (hyphen_cons_ne_ofNat _ m)
  | negSucc m =>
    cases n with
    | ofNat n => exact absurd h (hyphen_cons_ne_ofNat _ n)
    | negSucc n =>
      have := ofNat_injective (List.cons.inj h).2
      omega

end Text

namespace Document

variable {project : Text} {keys : List Text} {number : Int}

theorem keyOf_injective {m n : Int} (h : keyOf project m = keyOf project n) : m = n :=
  Text.ofInt_injective (List.cons.inj (List.append_cancel_left h)).2

theorem le_firstFree (project : Text) (keys : List Text) (number : Int) :
    number ≤ firstFree project keys number := by
  induction keys, number using firstFree.induct project with
  | case1 keys number h ih =>
    rw [firstFree, dif_pos h]
    omega
  | case2 keys number h =>
    exact Int.le_of_eq (by rw [firstFree, dif_neg h])

/-- The number that is found gives a key that is free. -/
theorem keyOf_firstFree_not_mem (project : Text) (keys : List Text) (number : Int) :
    keyOf project (firstFree project keys number) ∉ keys := by
  induction keys, number using firstFree.induct project with
  | case1 keys number h ih =>
    rw [firstFree, dif_pos h]
    intro hmem
    -- The key that was met has a smaller number than the one that is found.
    have hlt : number + 1 ≤ firstFree project (keys.erase (keyOf project number)) (number + 1) :=
      le_firstFree ..
    refine ih ((List.mem_erase_of_ne fun heq => ?_).2 hmem)
    have := keyOf_injective heq
    omega
  | case2 keys number h =>
    rwa [firstFree, dif_neg h]

theorem mint_eq_ok {doc minted : Document} {key : Text}
    (h : doc.mint project = .ok (key, minted)) :
    key ∉ doc.tasks.keys ∧ minted.tasks = doc.tasks := by
  rw [mint] at h
  split at h
  · obtain ⟨next, -, h⟩ := bind_eq_ok h
    cases h
    exact ⟨keyOf_firstFree_not_mem _ _ _, tasks_setHeader ..⟩
  · cases h

end Document

namespace Tasks

open Work

theorem yields_interfere {u : Unit} {w w' : Workspace} (h : interfere.Yields w u w') :
    ∃ disk, w' = { w with disk } := by
  rw [interfere, yields_bind] at h
  obtain ⟨v, w₁, hget, h⟩ := h
  obtain ⟨rfl, rfl⟩ := yields_get.1 hget
  exact ⟨_, (yields_onDisk.1 h).2⟩

/-- Creating a task saves the document with the task under a key that was found for it; then it is
the turn of others. -/
theorem steps_of_create {fields : Fields Json} {key : Text} {w w' : Workspace}
    (h : (create fields).Yields w key w') :
    ∃ doc v u, w.store.document.mint w.store.project = .ok (key, doc) ∧
      save.Yields (changed w (doc.put key (Document.newTask key w.now
        (fields.filter fun field => !field.2.isBlank)))) () v ∧ interfere.Yields v u w' := by
  rw [create, yields_bind] at h
  obtain ⟨_, w₁, henter, h⟩ := h
  obtain rfl := yields_enter henter
  obtain ⟨v, w₂, hget, h⟩ := yields_bind.1 h
  obtain ⟨rfl, rfl⟩ := yields_get.1 hget
  obtain ⟨⟨minted, doc⟩, w₃, hask, h⟩ := yields_bind.1 h
  obtain ⟨hmint, rfl⟩ := yields_ask.1 hask
  obtain ⟨_, w₄, hset, h⟩ := yields_bind.1 h
  obtain rfl := yields_setDocument.1 hset
  obtain ⟨answer, w₅, hattempt, h⟩ := yields_bind.1 h
  rcases yields_attempt hattempt with ⟨_, rfl, hsave⟩ | ⟨e, rfl⟩
  · obtain ⟨u, w₆, hinterfere, h⟩ := yields_bind.1 h
    obtain ⟨rfl, rfl⟩ := yields_pure.1 h
    exact ⟨doc, w₅, u, hmint, hsave, hinterfere⟩
  · obtain ⟨_, w₆, -, h⟩ := yields_bind.1 h
    obtain ⟨_, w₇, -, h⟩ := yields_bind.1 h
    exact absurd h not_yields_throw

theorem of_create {fields : Fields Json} {key : Text} {w w' : Workspace}
    (h : (create fields).Yields w key w') :
    ∃ doc v, w.store.document.mint w.store.project = .ok (key, doc) ∧
      save.Yields (changed w (doc.put key (Document.newTask key w.now
        (fields.filter fun field => !field.2.isBlank)))) () v ∧ ∃ disk, w' = { v with disk } := by
  obtain ⟨doc, v, _, hmint, hsave, hinterfere⟩ := steps_of_create h
  exact ⟨doc, v, hmint, hsave, yields_interfere hinterfere⟩

/-- A new task has a key that no task had, and the other keys of tasks are the same. -/
theorem yields_create {fields : Fields Json} {key : Text} {w w' : Workspace}
    (h : (create fields).Yields w key w') :
    key ∉ w.store.document.tasks.keys ∧ ∀ other,
      other ∈ w'.store.document.tasks.keys ↔
        other = key ∨ other ∈ w.store.document.tasks.keys := by
  obtain ⟨doc, v, hmint, hsave, disk, rfl⟩ := of_create h
  obtain ⟨hfree, htasks⟩ := Document.mint_eq_ok hmint
  obtain ⟨-, hsaved⟩ := yields_save hsave
  refine ⟨hfree, fun other => ?_⟩
  dsimp only
  rw [hsaved]
  dsimp only [changed, Document.put]
  rw [TaskMap.mem_keys_insert, htasks]

end Tasks

end TodoTracker
