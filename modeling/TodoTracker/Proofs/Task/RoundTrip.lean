import TodoTracker.Proofs.Task.Outcomes

/-!
# Recording an anchor and taking it back

An anchor that was recorded is among those of its task, and can be taken back, exactly when its
path is readable. The reference that writes it is in the document in any case.
-/

set_option autoImplicit false

namespace TodoTracker

namespace Tasks

open Work

variable {key : Text} {anchor : Anchor} {u : Unit} {w w' : Workspace}

theorem mem_anchors_of_append (hline : 1 ≤ anchor.line) (h : (append key anchor).Yields w u w') :
    ∃ as, w'.anchors key = .ok as ∧ (anchor ∈ as ↔ Anchor.Readable anchor.file) := by
  obtain ⟨-, as, -, hafter⟩ := yields_append h
  have hread : ∃ as', w'.anchors key = .ok as' ∧ ∀ b ∈ Document.readBack anchor, b ∈ as' := by
    rcases hafter with ⟨hold, has⟩ | has
    · exact ⟨as, has, hold⟩
    · exact ⟨_, has, fun b hb => List.mem_append_right _ hb⟩
  obtain ⟨as', has', hback⟩ := hread
  refine ⟨as', has', ?_, ?_⟩
  · intro hmem
    have hwritten := Document.isWritten_of_mem_anchors has' hmem
    exact Anchor.readable_of_ofCode? (hwritten.addressable anchor.line hline)
  · intro hreadable
    refine hback anchor ?_
    rw [Document.readBack_of_isWritten ⟨hreadable.addressable, hline⟩]
    exact List.mem_singleton_self anchor

/-- An anchor that was recorded is listed with its task, and is what its own reference reads back as,
exactly when its path is readable. Removing it then saves a document without it and answers that it
was there; otherwise nothing is removed. The other anchors of all tasks stay in any case. -/
theorem remove_run_of_append (hline : 1 ≤ anchor.line) (happend : (append key anchor).Yields w u w')
    (haccept : w'.refusals w'.calls .remove = none) :
    ∃ as doc, w'.anchors key = .ok as ∧
      (anchor ∈ as ↔ Anchor.Readable anchor.file) ∧
      (Anchor.ofReference? anchor.toReference = some anchor ↔ Anchor.Readable anchor.file) ∧
      (remove key anchor).run w' =
        (if Anchor.Readable anchor.file then ((fun _ => true) <$> save).run (changed w' doc)
        else (.ok false, { w' with calls := w'.calls + 1 })) ∧
      ∀ found w'', (remove key anchor).Yields w' found w'' →
        w''.anchors key = .ok (as.filter (· ≠ anchor)) ∧
          ∀ other, other ≠ key → w''.anchors other = w'.anchors other := by
  obtain ⟨as, has, hmem⟩ := mem_anchors_of_append hline happend
  obtain ⟨answer, hremove⟩ := Document.exists_removeAnchor has anchor w'.now
  have hfound := Document.isSome_removeAnchor hremove has
  have hrun := run_remove key anchor w'
  rw [haccept, hremove] at hrun
  refine ⟨as, answer.getD w'.store.document, has, hmem, Anchor.ofCode?_codeOf hline, ?_, ?_⟩
  · rw [hrun]
    cases answer with
    | none =>
      have habsent : ¬Anchor.Readable anchor.file := by
        rw [← hmem]
        simpa using hfound
      rw [if_neg habsent]
    | some doc =>
      have hreadable : Anchor.Readable anchor.file := by
        rw [← hmem]
        simpa using hfound
      rw [if_pos hreadable]
      rfl
  · intro found w'' hyields
    obtain ⟨htouched, as', has', hafter⟩ := yields_remove hyields
    obtain rfl : as = as' := Except.ok.inj (has.symm.trans has')
    exact ⟨hafter, htouched.others⟩

/-- A hash sign in a path does no harm where no digit follows it. -/
theorem remove_run_of_append_hash : ∃ w' as w'',
    (append "PROJ-1".toList ⟨"a#b.py".toList, 1⟩).Yields
      (.inMemory .empty ⟨[("PROJ-1".toList, .object [])], by decide⟩) () w' ∧
    w'.anchors "PROJ-1".toList = .ok as ∧ ⟨"a#b.py".toList, 1⟩ ∈ as ∧
    (remove "PROJ-1".toList ⟨"a#b.py".toList, 1⟩).Yields w' true w'' := by
  have happend : ∃ w', (append "PROJ-1".toList ⟨"a#b.py".toList, 1⟩).Yields
      (.inMemory .empty ⟨[("PROJ-1".toList, .object [])], by decide⟩) () w' ∧
      w'.refusals w'.calls .remove = none ∧ w'.store.path = none := ⟨_, rfl, rfl, rfl⟩
  obtain ⟨w', happend, haccept, hpath⟩ := happend
  obtain ⟨as, doc, has, hmem, -, hrun, -⟩ :=
    remove_run_of_append (by decide : (1 : Int) ≤ 1) happend haccept
  have hreadable : Anchor.Readable "a#b.py".toList := by decide
  refine ⟨w', as, changed w' doc, happend, has, hmem.2 hreadable, ?_⟩
  have hsave : save.run (changed w' doc) = (.ok (), changed w' doc) := run_save_of_no_file hpath
  rw [if_pos hreadable, Work.run_map, hsave] at hrun
  exact hrun

end Tasks

end TodoTracker
