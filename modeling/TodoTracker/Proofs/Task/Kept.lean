import TodoTracker.Proofs.Task.Sound

/-!
# What stays in a document

Recording and removing anchors rewrites the references of a task and the time of its last change. The
other fields stay as they are, and so do the references that write no anchor that was removed; they
keep their order. A new task takes the place of none.
-/

set_option autoImplicit false

namespace TodoTracker.Document

variable {keep : Json → Bool} {doc doc' doc'' : Document} {key now : Text}

/-- Every task that takes anchors keeps its fields, the references and the time of its last change
apart, and of its references those in `keep`, in their order. -/
def Keeps (keep : Json → Bool) (doc doc' : Document) : Prop :=
  ∀ key fields items, doc.tasks.task? key = some (.object fields) →
    openReferences fields = .ok items → ∃ fields' items',
      doc'.tasks.task? key = some (.object fields') ∧ openReferences fields' = .ok items' ∧
      (∀ name, name ≠ referencesName → name ≠ modifiedName →
        Fields.get? fields' name = Fields.get? fields name) ∧
      (items.filter keep).Sublist items'

/-- A task with other references keeps its other fields. -/
theorem exists_withReferences (fields : Fields Json) (items : List Json) (now : Text) :
    ∃ fields', withReferences fields items now = .object fields' ∧
      openReferences fields' = .ok items ∧ ∀ name, name ≠ referencesName → name ≠ modifiedName →
        Fields.get? fields' name = Fields.get? fields name := by
  obtain ⟨fields', heq, hopen⟩ := openReferences_withReferences fields items now
  refine ⟨fields', heq, hopen, fun name hreferences hmodified => ?_⟩
  cases heq
  rw [Fields.get?_set_of_ne _ _ hmodified, Fields.get?_set_of_ne _ _ hreferences]

namespace Keeps

theorem of_tasks (h : ∀ key, doc.tasks.task? key ≠ none →
    doc'.tasks.task? key = doc.tasks.task? key) : doc.Keeps keep doc' := by
  intro key fields items htask hopen
  refine ⟨fields, items, ?_, hopen, fun _ _ _ => rfl, List.filter_sublist⟩
  rw [h key (by simp [htask]), htask]

theorem refl (doc : Document) : doc.Keeps keep doc := of_tasks fun _ _ => rfl

theorem trans (h : doc.Keeps keep doc') (h' : doc'.Keeps keep doc'') : doc.Keeps keep doc'' := by
  intro key fields items htask hopen
  obtain ⟨fields', items', htask', hopen', hfields, hitems⟩ := h key fields items htask hopen
  obtain ⟨fields'', items'', htask'', hopen'', hfields', hitems'⟩ :=
    h' key fields' items' htask' hopen'
  refine ⟨fields'', items'', htask'', hopen'', fun name hreferences hmodified =>
    (hfields' name hreferences hmodified).trans (hfields name hreferences hmodified), ?_⟩
  have hkept := hitems.filter keep
  rw [List.filter_filter, List.filter_congr fun item _ => Bool.and_self (keep item)] at hkept
  exact hkept.trans hitems'

/-- The references of one task are replaced by others that have those in `keep`. -/
theorem put {fields : Fields Json} {items items' : List Json}
    (htask : doc.tasks.task? key = some (.object fields))
    (hreferences : references (.object fields) = .ok items)
    (hitems : (items.filter keep).Sublist items') :
    doc.Keeps keep (doc.put key (withReferences fields items' now)) := by
  intro other fields₀ items₀ htask₀ hopen₀
  by_cases hother : other = key
  · subst hother
    rw [htask] at htask₀
    cases htask₀
    obtain ⟨fields', heq, hopen', hfields⟩ := exists_withReferences fields items' now
    rw [references_of_openReferences hopen₀] at hreferences
    cases hreferences
    exact ⟨fields', items', by rw [heq]; exact TaskMap.task?_insert_object _ _ _, hopen', hfields,
      hitems⟩
  · refine ⟨fields₀, items₀, ?_, hopen₀, fun _ _ _ => rfl, List.filter_sublist⟩
    rw [← htask₀]
    exact TaskMap.task?_insert_of_ne _ _ hother

theorem addAnchor {anchor : Anchor} (h : doc.addAnchor key anchor now = .ok (some doc')) :
    doc.Keeps keep doc' := by
  obtain ⟨fields, items, htask, hreferences, hanswer⟩ := addAnchor_eq_ok h
  split at hanswer
  · cases hanswer
  · cases hanswer
    exact put htask hreferences (List.filter_sublist.trans (List.sublist_append_left _ _))

/-- Removing an anchor keeps what does not write it. -/
theorem removeAnchor {anchor : Anchor}
    (hkeep : ∀ item, keep item = true → Anchor.ofReference? item ≠ some anchor)
    (h : doc.removeAnchor key anchor now = .ok (some doc')) : doc.Keeps keep doc' := by
  rcases removeAnchor_eq_ok h with ⟨-, hanswer⟩ | ⟨fields, items, htask, hreferences, hanswer⟩
  · cases hanswer
  · split at hanswer
    · cases hanswer
    · cases hanswer
      exact put htask hreferences
        (List.monotone_filter_right items fun item hitem => bne_iff_ne.2 (hkeep item hitem))

/-- What was put under a key that has been free since can be taken away again. -/
theorem erase {mid : Document} (hmid : doc.Keeps keep mid) (hfree : key ∉ mid.tasks.keys)
    (h : doc.Keeps keep doc') : doc.Keeps keep (doc'.erase key) := by
  intro other fields items htask hopen
  obtain ⟨fields', items', htask', hkept⟩ := h other fields items htask hopen
  have hother : other ≠ key := by
    rintro rfl
    obtain ⟨fields₁, items₁, htask₁, -⟩ := hmid other fields items htask hopen
    rw [TaskMap.task?_eq_none hfree] at htask₁
    cases htask₁
  exact ⟨fields', items', (TaskMap.task?_erase_of_ne _ hother).trans htask', hkept⟩

end Keeps

end TodoTracker.Document
