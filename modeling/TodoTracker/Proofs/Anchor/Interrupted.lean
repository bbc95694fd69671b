import TodoTracker.Proofs.Anchor.Noted
import TodoTracker.Proofs.Task.Created

/-!
# Confirmations that fail

A confirmation removes the stale anchors of its task in the file, one call of the store after the
other, and records the new anchor last. When the store refuses one of these calls, what the calls
before it have removed is gone. So the anchors are as they were exactly when the first call is the
one that is refused.
-/

set_option autoImplicit false

namespace TodoTracker

open Work

/-- An error of a call that had no effect: it is none of writing the document of the tasks. -/
def StoreError.BeforeEffect (e : StoreError) : Prop := ∀ path flaw, e ≠ .write path flaw

namespace Tasks

variable {key : Text} {anchor : Anchor} {found : Bool} {e : StoreError} {w w' : Workspace}

/-- Saving is no call of the store. -/
theorem calledTimes_save {n : Nat} (hw : w.calls = n) :
    GuardedAt (fun v => v.calls = n) (fun _ => True) save w := by
  refine .bindGet ?_
  split
  · exact .pure _ hw
  · refine GuardedAt.tryCatch ?_ fun e v (_ : True) hv => ?_
    · refine (GuardedAt.onDisk hw fun _ _ => trivial).bind fun _ v _ hv => ?_
      refine guarded_bindDocument (.bindGet ?_)
      refine (GuardedAt.ofExcept hv fun _ _ => trivial).bind fun _ u _ hu => ?_
      refine (GuardedAt.modify _ hu).bind fun _ t _ ht => ?_
      exact guarded_bindDocument (.onDisk ht fun _ _ => trivial)
    · split <;> exact .throw hv trivial

/-- What the store reports about saving is that the document could not be written. -/
theorem not_fails_save (he : e.BeforeEffect) : ¬Fails save w (.store e) w' := by
  intro h
  rcases ((called_save [] w).of_fails h).2 with hforeign | ⟨path, flaw, -, hwrite⟩
  · cases hforeign
  · cases hwrite
    exact he _ _ rfl

/-- A removal that fails before it has an effect only counts as a call. -/
theorem of_fails_remove (he : e.BeforeEffect) (h : Fails (remove key anchor) w (.store e) w') :
    w' = { w with calls := w.calls + 1 } := by
  rw [Fails, run_remove] at h
  split at h
  · exact (Prod.mk.inj h).2.symm
  split at h
  · cases h
  · cases h
  · rename_i doc _
    rw [run_map] at h
    rcases hsave : save.run (changed w doc) with ⟨failure | _, v⟩
    · rw [hsave] at h
      cases h
      exact absurd hsave (not_fails_save he)
    · rw [hsave] at h
      cases h

theorem of_fails_append (he : e.BeforeEffect) (h : Fails (append key anchor) w (.store e) w') :
    w' = { w with calls := w.calls + 1 } := by
  rw [Fails, run_append] at h
  split at h
  · exact (Prod.mk.inj h).2.symm
  split at h
  · exact (Prod.mk.inj h).2.symm
  · cases h
  · exact absurd h (not_fails_save he)

theorem calls_of_remove (h : (remove key anchor).Yields w found w') : w'.calls = w.calls + 1 := by
  rcases of_remove h with ⟨-, -, rfl⟩ | ⟨doc, -, -, hsave⟩
  · rfl
  · have hw : (changed w doc).calls = w.calls + 1 := rfl
    have hcalls := (calledTimes_save hw).leaves
    rwa [hsave] at hcalls

end Tasks

namespace Reconciler

variable {reconciler : Reconciler} {key : Text} {anchor keep : Anchor} {todo as : List Anchor}
  {count : Nat} {e : StoreError} {failure : Failure} {w w' : Workspace}

/-- Counting one more anchor does not fail. -/
theorem fails_pruneFile_of_counted {one : Nat} (h : Fails (do
    let others ← reconciler.pruneFile key keep todo
    return others + one) w failure w') :
    Fails (reconciler.pruneFile key keep todo) w failure w' := by
  rcases fails_bind.1 h with h | ⟨_, _, -, h⟩
  · exact h
  · exact absurd h not_fails_pure

/-- When nothing is recorded, there is no call that could fail. -/
theorem not_fails_pruneFile_of_dry (hdry : reconciler.dryRun = true) :
    ¬Fails (reconciler.pruneFile key keep todo) w failure w' := by
  induction todo with
  | nil => exact not_fails_pure
  | cons first todo ih =>
    intro h
    rw [pruneFile, hdry] at h
    dsimp only at h
    split at h
    · exact ih (fails_pruneFile_of_counted h)
    · exact ih (fails_pruneFile_of_counted h)

/-- Dropping anchors fails with the first of them that is to be dropped, or with the rest. -/
theorem fails_pruneFile_cons {first : Anchor} (hwet : reconciler.dryRun = false)
    (h : Fails (reconciler.pruneFile key keep (first :: todo)) w failure w') :
    Dropped keep first ∧ (Fails (Tasks.remove key first) w failure w' ∨
        ∃ pruned v, (Tasks.remove key first).Yields w pruned v ∧
          Fails (reconciler.pruneFile key keep todo) v failure w') ∨
      ¬Dropped keep first ∧ Fails (reconciler.pruneFile key keep todo) w failure w' := by
  rw [pruneFile, hwet] at h
  dsimp only at h
  split at h
  · rename_i hdrop
    rcases fails_bind.1 h with h | ⟨pruned, v, hremove, h⟩
    · exact .inl ⟨hdrop, .inl h⟩
    · exact .inl ⟨hdrop, .inr ⟨pruned, v, hremove, fails_pruneFile_of_counted h⟩⟩
  · rename_i hkeep
    exact .inr ⟨hkeep, fails_pruneFile_of_counted h⟩

/-- Every anchor that is to be dropped takes one call. -/
theorem calls_of_pruneFile (hwet : reconciler.dryRun = false)
    (h : (reconciler.pruneFile key keep todo).Yields w count w') :
    w'.calls = w.calls + (todo.filter (Dropped keep ·)).length := by
  induction todo generalizing count w with
  | nil =>
    obtain ⟨-, rfl⟩ := yields_pure.1 h
    rfl
  | cons first todo ih =>
    obtain ⟨pruned, others, w₁, hfirst, hrest, -⟩ := yields_pruneFile_cons h
    have hcalls := ih hrest
    rcases hfirst with ⟨hdrop, ⟨hdry, -⟩ | ⟨-, hremove⟩⟩ | ⟨hkeep, -, rfl⟩
    · rw [hwet] at hdry
      cases hdry
    · have := Tasks.calls_of_remove hremove
      rw [List.filter_cons_of_pos (by simpa using hdrop), List.length_cons]
      omega
    · rw [List.filter_cons_of_neg (by simpa using hkeep)]
      exact hcalls

/-- After `n` calls the first `n` of the stale anchors are gone, and all others are there. -/
structure Lost (key : Text) (stale : List Anchor) (as : List Anchor) (n : Nat)
    (w w' : Workspace) : Prop where
  calls : w'.calls = w.calls + n + 1
  le : n ≤ stale.length
  anchors : w'.anchors key = .ok (as.filter (· ∉ stale.take n))
  others : ∀ other, other ≠ key → w'.anchors other = w.anchors other

theorem lost_of_call (has : w.anchors key = .ok as) (stale : List Anchor) :
    Lost key stale as 0 w { w with calls := w.calls + 1 } where
  calls := rfl
  le := Nat.zero_le _
  anchors := by
    rw [List.take_zero, List.filter_eq_self.2 (by simp)]
    exact has
  others _ _ := rfl

/-- When dropping anchors fails, those before the one that could not be removed are gone. -/
theorem lost_of_fails_pruneFile (hwet : reconciler.dryRun = false) (he : e.BeforeEffect)
    (has : w.anchors key = .ok as)
    (h : Fails (reconciler.pruneFile key keep todo) w (.store e) w') :
    ∃ n, Lost key (todo.filter (Dropped keep ·)) as n w w' := by
  induction todo generalizing w as with
  | nil => exact absurd h not_fails_pure
  | cons first todo ih =>
    rcases fails_pruneFile_cons hwet h with
      ⟨hdrop, hremove | ⟨pruned, v, hremove, hrest⟩⟩ | ⟨hkeep, hrest⟩
    · obtain rfl := Tasks.of_fails_remove he hremove
      exact ⟨0, lost_of_call has _⟩
    · obtain ⟨htouched, as₀, has₀, hleft⟩ := Tasks.yields_remove hremove
      obtain rfl : as₀ = as := Except.ok.inj (has₀.symm.trans has)
      obtain ⟨n, hcalls, hle, hanchors, hothers⟩ := ih hleft hrest
      have hcall := Tasks.calls_of_remove hremove
      rw [List.filter_cons_of_pos (by simpa using hdrop)]
      refine ⟨n + 1, by omega, by rw [List.length_cons]; omega, ?_,
        fun other hne => (hothers other hne).trans (htouched.others other hne)⟩
      rw [hanchors, List.filter_filter, List.take_succ_cons]
      congr 1
      refine List.filter_congr fun a _ => ?_
      simp [Bool.and_comm]
    · rw [List.filter_cons_of_neg (by simpa using hkeep)]
      exact ih has hrest

theorem Lost.unchanged_iff {stale : List Anchor} {n : Nat} (h : Lost key stale as n w w')
    (has : w.anchors key = .ok as) (hstale : ∀ b ∈ stale, b ∈ as) :
    (∀ other, w'.anchors other = w.anchors other) ↔ w'.calls = w.calls + 1 := by
  have hcalls := h.calls
  constructor
  · intro hsame
    have hkept := (h.anchors.symm.trans (hsame key)).trans has
    cases hn : n with
    | zero => omega
    | succ m =>
      -- the first of the stale anchors is gone
      have hle := h.le
      obtain ⟨first, rest, rfl⟩ := List.exists_cons_of_length_pos (by omega : 0 < stale.length)
      have hall := List.filter_eq_self.1 (Except.ok.inj hkept) first
        (hstale first List.mem_cons_self)
      simp [hn] at hall
  · intro hfirst other
    obtain rfl : n = 0 := by omega
    by_cases hkey : other = key
    · subst hkey
      rw [h.anchors, has, List.take_zero, List.filter_eq_self.2 (by simp)]
    · exact h.others other hkey

/-- Reading the anchors of a task fails with a flaw of its record, which is no error of a call. -/
theorem not_fails_anchors : ¬Fails (Tasks.anchors key) w (.store e) w' := by
  intro h
  rw [Tasks.anchors] at h
  rcases fails_bind.1 h with h | ⟨doc, v, hdoc, h⟩
  · cases h
  · rw [Fails, Tasks.run_ask] at h
    cases hanswer : doc.anchors key <;> rw [hanswer] at h <;> cases h

theorem lost_of_fails_confirm (he : e.BeforeEffect)
    (h : Fails (reconciler.confirm key anchor) w (.store e) w') :
    ∃ as n, w.anchors key = .ok as ∧ Lost key (as.filter (Dropped anchor ·)) as n w w' := by
  rcases fails_bind.1 h with hnote | ⟨_, v, hnote, hrecord⟩
  · cases hnote
  have hv := yields_modify.1 hnote
  have hcalls : v.calls = w.calls := by rw [hv]
  have hsame : ∀ other, v.anchors other = w.anchors other := fun _ => by rw [hv]; rfl
  rcases fails_bind.1 hrecord with hanchors | ⟨as, u, hanchors, hdrop⟩
  · exact absurd hanchors not_fails_anchors
  obtain ⟨has, rfl⟩ := Tasks.yields_anchors.1 hanchors
  suffices ∃ n, Lost key (as.filter (Dropped anchor ·)) as n u w' by
    obtain ⟨n, hn⟩ := this
    exact ⟨as, n, (hsame key).symm.trans has, hcalls ▸ hn.calls, hn.le, hn.anchors,
      fun other hne => (hn.others other hne).trans (hsame other)⟩
  cases hwet : reconciler.dryRun with
  | true =>
    rcases fails_bind.1 hdrop with hprune | ⟨count, t, -, hadd⟩
    · exact absurd hprune (not_fails_pruneFile_of_dry hwet)
    · rw [hwet] at hadd
      simp only [Bool.not_true, Bool.and_false, Bool.false_eq_true, if_false] at hadd
      exact absurd hadd not_fails_pure
  | false =>
    rcases fails_bind.1 hdrop with hprune | ⟨count, t, hprune, hadd⟩
    · exact lost_of_fails_pruneFile hwet he has hprune
    split at hadd
    · rcases fails_bind.1 hadd with happend | ⟨_, _, -, hdone⟩
      · obtain rfl := Tasks.of_fails_append he happend
        obtain ⟨htouched, hleft⟩ := yields_pruneFile hwet has hprune
        refine ⟨_, ?_, Nat.le_refl _, hleft.trans ?_, htouched.others⟩
        · rw [calls_of_pruneFile hwet hprune]
        · -- all stale anchors have been dropped when the new one is refused
          rw [List.take_length]
          congr 1
          refine List.filter_congr fun a ha => decide_eq_decide.2 (not_congr ?_)
          rw [List.mem_filter, decide_eq_true_eq]
          rfl
      · exact absurd hdone not_fails_pure
    · exact absurd hadd not_fails_pure

/-- A confirmation that the store refuses has lost the stale anchors that the calls before have
removed, and no other anchor of any task. So no anchor has changed exactly when the first call was the
one that was refused. -/
theorem anchors_of_failed_confirm (he : e.BeforeEffect)
    (h : Fails (reconciler.confirm key anchor) w (.store e) w') :
    ∃ as, w.anchors key = .ok as ∧
      w'.anchors key = .ok (as.filter
        (· ∉ (as.filter (Dropped anchor ·)).take (w'.calls - (w.calls + 1)))) ∧
      (∀ other, other ≠ key → w'.anchors other = w.anchors other) ∧
      ((∀ other, w'.anchors other = w.anchors other) ↔ w'.calls = w.calls + 1) := by
  obtain ⟨as, n, has, hn⟩ := lost_of_fails_confirm he h
  have hcount : w'.calls - (w.calls + 1) = n := by have := hn.calls; omega
  refine ⟨as, has, ?_, hn.others, hn.unchanged_iff has fun b hb => (List.mem_filter.1 hb).1⟩
  rw [hcount]
  exact hn.anchors

/-- A task with an anchor that has drifted, in a store that takes no anchors. -/
def closedWorkspace : Workspace :=
  { Workspace.inMemory ⟨[], List.nodup_nil⟩ ⟨[("PROJ-1".toList,
      Document.newTask "PROJ-1".toList [] [("references".toList,
        .list [Anchor.toReference ⟨"a.py".toList, 1⟩])])], by decide⟩ with
    refusals := fun _ call => if call = .append then some "store down".toList else none }

/-- The old anchor is gone when the new one is refused. -/
theorem anchors_of_failed_confirm_drifted : ∃ (reconciler : Reconciler) (w' : Workspace),
    Fails (reconciler.confirm "PROJ-1".toList ⟨"a.py".toList, 2⟩) closedWorkspace
      (.store (.refused "store down".toList)) w' ∧
    closedWorkspace.anchors "PROJ-1".toList = .ok [⟨"a.py".toList, 1⟩] ∧
    ¬∀ other, w'.anchors other = closedWorkspace.anchors other := by
  obtain ⟨reconciler, hreconciler⟩ : ∃ reconciler : Reconciler, reconciler = ⟨[], 7, [], false⟩ :=
    ⟨_, rfl⟩
  have hrun : ((reconciler.confirm "PROJ-1".toList ⟨"a.py".toList, 2⟩).run closedWorkspace).1 =
      .error (.store (.refused "store down".toList)) := by
    rw [hreconciler]
    cbv
  have hcalls : ((reconciler.confirm "PROJ-1".toList ⟨"a.py".toList, 2⟩).run
      closedWorkspace).2.calls = 2 := by
    rw [hreconciler]
    cbv
  have hfails : Fails (reconciler.confirm "PROJ-1".toList ⟨"a.py".toList, 2⟩) closedWorkspace
      (.store (.refused "store down".toList)) _ := Prod.ext hrun rfl
  obtain ⟨-, -, -, -, hiff⟩ := anchors_of_failed_confirm (fun _ _ => StoreError.noConfusion) hfails
  refine ⟨reconciler, _, hfails, by cbv, fun hsame => ?_⟩
  have hfirst := hiff.1 hsame
  rw [hcalls] at hfirst
  cases hfirst

end Reconciler

end TodoTracker
