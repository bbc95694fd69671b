import TodoTracker.Proofs.Anchor.Confirmed

/-!
# Where a task stands in a file

A key that is sighted in a file has its anchor there from then on, and no other one, as far as the
anchors of later sightings in other files are read back as anchors in those files. The anchors that
the task has in the file follow from the sightings alone; what was recorded before does not matter.
-/

set_option autoImplicit false

namespace TodoTracker

namespace Reconciler

open Work

/-- The anchors of a task in a file after one more sighting, if the key was sighted there. -/
def stand (key file : Text) (mine : Option (List Anchor)) (s : Text × Anchor) :
    Option (List Anchor) :=
  if s.1 ≠ key then mine
  else if s.2.file = file then some [s.2]
  else mine.map (· ++ Document.readBack s.2)

/-- The anchors of a task in a file after sightings, if the key was sighted there. -/
def standing (key file : Text) (found : List (Text × Anchor)) : Option (List Anchor) :=
  found.foldl (stand key file) none

theorem standing_append_singleton (key file : Text) (found : List (Text × Anchor))
    (s : Text × Anchor) :
    standing key file (found ++ [s]) = stand key file (standing key file found) s := by
  simp [standing]

/-- In a file where its key was sighted, a task has the anchors that the sightings leave. -/
def Stands (key file : Text) (found : List (Text × Anchor)) (w : Workspace) : Prop :=
  ∀ mine, standing key file found = some mine → (key, file) ∈ w.sightings.confirmed ∧
    ∃ as, w.anchors key = .ok as ∧ ∀ a, a.file = file → (a ∈ as ↔ a ∈ mine)

variable {reconciler : Reconciler} {key file : Text} {found : List (Text × Anchor)}
  {w w' : Workspace}

theorem Stands.congr (h : Stands key file found w) (hanchors : w'.anchors key = w.anchors key)
    (hsightings : w'.sightings = w.sightings) : Stands key file found w' := by
  intro mine hmine
  rw [hanchors, hsightings]
  exact h mine hmine

/-- A confirmation is one more sighting. -/
theorem Stands.confirm {key' : Text} {anchor : Anchor} {answer : Confirmation}
    (hstands : Stands key file found w) (hdry : reconciler.dryRun = false)
    (hread : anchor.file = file → Document.readBack anchor = [anchor])
    (h : (reconciler.confirm key' anchor).Yields w answer w') :
    Stands key file (found ++ [(key', anchor)]) w' := by
  obtain ⟨-, hconfirmed, hothers, as, recorded, has, hafter, hrecorded⟩ :=
    yields_confirm_recorded hdry h
  intro mine hmine
  rw [standing_append_singleton, stand] at hmine
  rw [hconfirmed, mem_confirmed_add]
  by_cases hkey : key' = key
  · subst hkey
    by_cases hfile : anchor.file = file
    · subst hfile
      obtain ⟨-, -, -, as', has', hafter'⟩ := yields_confirm hdry (hread rfl) h
      simp only [ne_eq, not_true_eq_false, ↓reduceIte, Option.some.injEq] at hmine
      subst hmine
      refine ⟨.inr rfl, _, hafter', fun a ha => ?_⟩
      by_cases hmem : anchor ∈ as' <;> by_cases ha' : a = anchor <;> simp [hmem, ha, ha']
    · simp only [ne_eq, not_true_eq_false, ↓reduceIte, hfile, Option.map_eq_some_iff] at hmine
      obtain ⟨before, hbefore, rfl⟩ := hmine
      obtain ⟨hmem, as', has', hmine⟩ := hstands before hbefore
      rw [has] at has'
      cases has'
      refine ⟨.inl hmem, _, hafter, fun a ha => ?_⟩
      have hne : a.file ≠ anchor.file := fun heq => hfile (heq ▸ ha)
      have hback : a ∈ recorded ∨ a ∈ as ↔ a ∈ Document.readBack anchor ∨ a ∈ as := by
        rcases hrecorded with ⟨rfl, hpresent | hpresent⟩ | ⟨-, rfl⟩
        · rw [Document.readBack_of_isWritten (Document.isWritten_of_mem_anchors has hpresent)]
          simpa using fun heq : a = anchor => absurd (congrArg Anchor.file heq) hne
        · simpa using fun hmem => (List.mem_filter.1 (hpresent a hmem)).1
        · rfl
      rw [List.mem_append, List.mem_append, ← hmine a ha, or_comm (a := a ∈ as), ← hback]
      simp [hne, or_comm]
  · simp only [ne_eq, hkey, not_false_eq_true, ↓reduceIte] at hmine
    obtain ⟨hmem, as', has', hmine⟩ := hstands mine hmine
    exact ⟨.inl hmem, as', (hothers key (Ne.symm hkey)).trans has', hmine⟩

/-- Confirmations one after another are so many sightings more. -/
theorem Stands.confirmEach {found' : List (Text × Anchor)} {u : Unit}
    (hstands : Stands key file found w) (hdry : reconciler.dryRun = false)
    (hread : ∀ s ∈ found', s.2.file = file → Document.readBack s.2 = [s.2])
    (h : (reconciler.confirmEach found').Yields w u w') : Stands key file (found ++ found') w' := by
  induction found' generalizing found w with
  | nil =>
    obtain ⟨-, rfl⟩ := yields_pure.1 h
    simpa using hstands
  | cons s found' ih =>
    obtain ⟨answer, w₁, hconfirm, hrest⟩ := yields_confirmEach_cons h
    have hnext := hstands.confirm hdry (hread s List.mem_cons_self) hconfirm
    have := ih hnext (fun t ht => hread t (List.mem_cons_of_mem _ ht)) hrest
    simpa using this

theorem saved_of_confirmEach {u : Unit} (hdry : reconciler.dryRun = false)
    (h : (reconciler.confirmEach found).Yields w u w') : w.Saved w' := by
  induction found generalizing w with
  | nil =>
    obtain ⟨-, rfl⟩ := yields_pure.1 h
    exact (Workspace.Onward.refl w).saved
  | cons s found ih =>
    obtain ⟨answer, w₁, hconfirm, hrest⟩ := yields_confirmEach_cons h
    exact (yields_confirm_recorded hdry hconfirm).1.trans (ih hrest)

/-- Without renames, reconciling leaves a task where it stands. -/
theorem Stands.reconcile {roots : List Location} {checks : List AnchorVerdict}
    (hstands : Stands key file found w) (hrenames : reconciler.renames = [])
    (hdry : reconciler.dryRun = false) (h : (reconciler.reconcile roots).Yields w checks w')
    {mine : List Anchor} (hmine : standing key file found = some mine) :
    ∃ as, w'.anchors key = .ok as ∧ ∀ a, a.file = file → (a ∈ as ↔ a ∈ mine) := by
  obtain ⟨hconfirmed, as, has, hin⟩ := hstands mine hmine
  obtain ⟨w₁, w₂, own, honward, h₁, hown, h₂⟩ := exists_of_reconcile has h
  obtain ⟨as', has', hsame⟩ := inFile_of_confirmed hrenames hdry hown h₁
    (fun a ha => Document.isWritten_of_mem_anchors has (List.mem_reverse.1 ha))
    (honward.confirmed ▸ hconfirmed)
  refine ⟨as', h₂.trans has', fun a ha => ?_⟩
  rw [← hin a ha]
  have hmem : a ∈ inFile file as' ↔ a ∈ inFile file as := by rw [hsame]
  simpa [mem_inFile, ha] using hmem

end Reconciler

end TodoTracker
