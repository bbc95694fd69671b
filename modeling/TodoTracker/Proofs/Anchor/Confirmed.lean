import TodoTracker.Proofs.Anchor.Keeping

/-!
# What becomes of confirmed anchors

Confirming anchors a task on a line of a file and drops its other anchors there. A later
confirmation does not touch that anchor unless it is for the same task and file. Reconciling passes
over it, except when its file is the old name of a renamed file: then it is checked once more under
the new name, and lost.
-/

set_option autoImplicit false

namespace TodoTracker

namespace Reconciler

open Work

theorem yields_pruneFile {reconciler : Reconciler} {key : Text} {keep : Anchor}
    {todo : List Anchor} {count : Nat} {w w' : Workspace} {as : List Anchor}
    (hdry : reconciler.dryRun = false) (has : w.anchors key = .ok as)
    (h : (reconciler.pruneFile key keep todo).Yields w count w') :
    Tasks.Touched key w w' ∧ w'.anchors key =
      .ok (as.filter fun a => ¬(a ∈ todo ∧ a.file = keep.file ∧ a ≠ keep)) := by
  induction todo generalizing count w as with
  | nil =>
    obtain ⟨-, rfl⟩ := yields_pure.1 h
    rw [List.filter_eq_self.2 (by simp)]
    exact ⟨.refl _ _, has⟩
  | cons anchor rest ih =>
    rw [pruneFile, hdry] at h
    dsimp only at h
    split at h
    · rename_i hdrop
      simp only [Bool.false_eq_true, if_false] at h
      obtain ⟨_, w₁, hremove, h⟩ := yields_bind.1 h
      obtain ⟨others, w₂, hrest, h⟩ := yields_bind.1 h
      obtain ⟨-, rfl⟩ := yields_pure.1 h
      obtain ⟨htouched, as₀, has₀, has₁⟩ := Tasks.yields_remove hremove
      rw [has] at has₀
      cases has₀
      obtain ⟨htouched', hafter⟩ := ih has₁ hrest
      refine ⟨htouched.trans htouched', hafter.trans ?_⟩
      rw [List.filter_filter]
      congr 1
      refine List.filter_congr fun a _ => ?_
      by_cases ha : a = anchor
      · subst ha
        simp [hdrop]
      · simp [ha]
    · rename_i hkeep
      obtain ⟨_, w₁, hpure, h⟩ := yields_bind.1 h
      obtain ⟨rfl, rfl⟩ := yields_pure.1 hpure
      obtain ⟨others, w₂, hrest, h⟩ := yields_bind.1 h
      obtain ⟨-, rfl⟩ := yields_pure.1 h
      obtain ⟨htouched, hafter⟩ := ih has hrest
      refine ⟨htouched, hafter.trans ?_⟩
      congr 1
      refine List.filter_congr fun a _ => ?_
      by_cases ha : a = anchor
      · subst ha
        simp [hkeep]
      · simp [ha]

/-- Confirming notes the sighting and prunes the anchors that were there; the confirmed one is
recorded when it was not, unless the run is dry. -/
theorem of_confirm {reconciler : Reconciler} {key : Text} {anchor : Anchor}
    {answer : Confirmation} {w w' : Workspace}
    (h : (reconciler.confirm key anchor).Yields w answer w') :
    ∃ as count v, w.anchors key = .ok as ∧
      (reconciler.pruneFile key anchor as).Yields { w with sightings := w.sightings.add key anchor }
        count v ∧
      answer = ⟨!as.contains anchor, count⟩ ∧
      (anchor ∉ as ∧ reconciler.dryRun = false ∧ (Tasks.append key anchor).Yields v () w' ∨
        (anchor ∈ as ∨ reconciler.dryRun = true) ∧ w' = v) := by
  rw [confirm, yields_bind] at h
  obtain ⟨_, w₁, hnote, h⟩ := h
  obtain rfl := yields_modify.1 hnote
  obtain ⟨as, w₂, hanchors, h⟩ := yields_bind.1 h
  obtain ⟨has, rfl⟩ := Tasks.yields_anchors.1 hanchors
  obtain ⟨count, v, hprune, h⟩ := yields_bind.1 h
  refine ⟨as, count, v, has, hprune, ?_⟩
  dsimp only at h
  split at h
  · rename_i hnew
    rw [Bool.and_eq_true, Bool.not_eq_true', Bool.not_eq_true'] at hnew
    obtain ⟨_, w₃, happend, h⟩ := yields_bind.1 h
    obtain ⟨rfl, rfl⟩ := yields_pure.1 h
    exact ⟨rfl, .inl ⟨by simpa using hnew.1, hnew.2, happend⟩⟩
  · rename_i hknown
    obtain ⟨rfl, rfl⟩ := yields_pure.1 h
    refine ⟨rfl, .inr ⟨?_, rfl⟩⟩
    cases hdry : reconciler.dryRun with
    | false => exact .inl (by simpa [hdry] using hknown)
    | true => exact .inr rfl

/-- Confirming drops the other anchors of a task in the file. The confirmed one is recorded unless
it is there already; what is recorded may read back differently, or be there under that reading. -/
theorem yields_confirm_recorded {reconciler : Reconciler} {key : Text} {anchor : Anchor}
    {answer : Confirmation} {w w' : Workspace} (hdry : reconciler.dryRun = false)
    (h : (reconciler.confirm key anchor).Yields w answer w') :
    w.Saved w' ∧ w'.sightings.confirmed = (w.sightings.add key anchor).confirmed ∧
      (∀ other, other ≠ key → w'.anchors other = w.anchors other) ∧
      ∃ as recorded, w.anchors key = .ok as ∧ w'.anchors key =
          .ok ((as.filter fun a => ¬(a.file = anchor.file ∧ a ≠ anchor)) ++ recorded) ∧
        (recorded = [] ∧ (anchor ∈ as ∨ ∀ b ∈ Document.readBack anchor,
            b ∈ as.filter fun a => ¬(a.file = anchor.file ∧ a ≠ anchor)) ∨
          anchor ∉ as ∧ recorded = Document.readBack anchor) := by
  obtain ⟨as, count, v, has, hprune, -, hrest⟩ := of_confirm h
  have hnoted : ({ w with sightings := w.sightings.add key anchor } : Workspace).anchors key =
      .ok as := has
  obtain ⟨htouched, hpruned⟩ := yields_pruneFile hdry hnoted hprune
  have hfilter : (as.filter fun a => ¬(a ∈ as ∧ a.file = anchor.file ∧ a ≠ anchor)) =
      as.filter fun a => ¬(a.file = anchor.file ∧ a ≠ anchor) :=
    List.filter_congr fun a ha => by simp [ha]
  rw [hfilter] at hpruned
  have hsaved := htouched.onward.saved
  rcases hrest with ⟨habsent, -, happend⟩ | ⟨hknown, rfl⟩
  · obtain ⟨htouched', as₁, has₁, hadded⟩ := Tasks.yields_append happend
    rw [hpruned] at has₁
    cases has₁
    have htouched₂ := htouched.trans htouched'
    have hsaved₂ := htouched₂.onward.saved
    refine ⟨⟨hsaved₂.path, hsaved₂.disk, hsaved₂.keys, hsaved₂.legible⟩,
      htouched₂.onward.confirmed, htouched₂.others, as, ?_⟩
    rcases hadded with ⟨hback, hsame⟩ | hadded
    · exact ⟨[], has, by rw [List.append_nil]; exact hsame, .inl ⟨rfl, .inr hback⟩⟩
    · exact ⟨_, has, hadded, .inr ⟨habsent, rfl⟩⟩
  · have hpresent : anchor ∈ as := by simpa [hdry] using hknown
    refine ⟨⟨hsaved.path, hsaved.disk, hsaved.keys, hsaved.legible⟩, htouched.onward.confirmed,
      htouched.others, as, [], has, ?_, .inl ⟨rfl, .inl hpresent⟩⟩
    rw [List.append_nil]
    exact hpruned

/-- Confirming leaves a task with one anchor in the file, the confirmed one. -/
theorem yields_confirm {reconciler : Reconciler} {key : Text} {anchor : Anchor}
    {answer : Confirmation} {w w' : Workspace} (hdry : reconciler.dryRun = false)
    (hread : Document.readBack anchor = [anchor])
    (h : (reconciler.confirm key anchor).Yields w answer w') :
    w.Saved w' ∧ w'.sightings.confirmed = (w.sightings.add key anchor).confirmed ∧
      (∀ other, other ≠ key → w'.anchors other = w.anchors other) ∧
      ∃ as, w.anchors key = .ok as ∧ w'.anchors key =
        .ok ((as.filter fun a => ¬(a.file = anchor.file ∧ a ≠ anchor)) ++
          if anchor ∈ as then [] else [anchor]) := by
  obtain ⟨hsaved, hconfirmed, hothers, as, recorded, has, hafter, hrecorded⟩ :=
    yields_confirm_recorded hdry h
  refine ⟨hsaved, hconfirmed, hothers, as, has, ?_⟩
  rw [hread] at hrecorded
  rcases hrecorded with ⟨rfl, hpresent⟩ | ⟨habsent, rfl⟩
  · have hmem : anchor ∈ as :=
      hpresent.elim id fun hkept => (List.mem_filter.1 (hkept anchor (by simp))).1
    rw [if_pos hmem]
    exact hafter
  · rw [if_neg habsent]
    exact hafter

/-- Note sightings of keys one after another. -/
def confirmEach (reconciler : Reconciler) : List (Text × Anchor) → Work Unit
  | [] => return ()
  | (key, anchor) :: rest => do
    let _ ← reconciler.confirm key anchor
    reconciler.confirmEach rest

theorem mem_confirmed_add {s : Sightings} {key : Text} {anchor : Anchor} {p : Text × Text} :
    p ∈ (s.add key anchor).confirmed ↔ p ∈ s.confirmed ∨ p = (key, anchor.file) := by
  rw [Sightings.add]
  dsimp only
  split
  · rename_i hmem
    constructor
    · exact .inl
    · rintro (h | rfl)
      · exact h
      · simpa using hmem
  · simp

/-- The anchor of a task is recorded and was confirmed. -/
structure Holds (key : Text) (anchor : Anchor) (w : Workspace) : Prop where
  recorded : ∃ as, w.anchors key = .ok as ∧ anchor ∈ as
  confirmed : (key, anchor.file) ∈ w.sightings.confirmed

theorem holds_of_confirm {reconciler : Reconciler} {key : Text} {anchor : Anchor}
    {answer : Confirmation} {w w' : Workspace} (hdry : reconciler.dryRun = false)
    (hread : Document.readBack anchor = [anchor])
    (h : (reconciler.confirm key anchor).Yields w answer w') : Holds key anchor w' := by
  obtain ⟨-, hconfirmed, -, as, -, hafter⟩ := yields_confirm hdry hread h
  refine ⟨⟨_, hafter, ?_⟩, hconfirmed ▸ mem_confirmed_add.2 (.inr rfl)⟩
  by_cases hmem : anchor ∈ as <;> simp [hmem]

/-- A confirmation for another task or file leaves a confirmed anchor in place. -/
theorem Holds.confirm {reconciler : Reconciler} {key key' : Text} {anchor anchor' : Anchor}
    {answer : Confirmation} {w w' : Workspace} (hholds : Holds key anchor w)
    (hdry : reconciler.dryRun = false)
    (hother : ¬(key' = key ∧ anchor'.file = anchor.file))
    (h : (reconciler.confirm key' anchor').Yields w answer w') : Holds key anchor w' := by
  obtain ⟨-, hconfirmed, hothers, as', recorded, has', hafter, -⟩ := yields_confirm_recorded hdry h
  refine ⟨?_, hconfirmed ▸ mem_confirmed_add.2 (.inl hholds.confirmed)⟩
  obtain ⟨as, has, hmem⟩ := hholds.recorded
  by_cases hkey : key = key'
  · subst hkey
    rw [has] at has'
    cases has'
    have hfile : anchor.file ≠ anchor'.file := fun hfile => hother ⟨rfl, hfile.symm⟩
    exact ⟨_, hafter, by simp [hmem, hfile]⟩
  · exact ⟨as, (hothers key hkey).trans has, hmem⟩

theorem yields_confirmEach_cons {reconciler : Reconciler} {key : Text} {anchor : Anchor}
    {rest : List (Text × Anchor)} {u : Unit} {w w'' : Workspace}
    (h : (reconciler.confirmEach ((key, anchor) :: rest)).Yields w u w'') :
    ∃ answer w', (reconciler.confirm key anchor).Yields w answer w' ∧
      (reconciler.confirmEach rest).Yields w' u w'' := by
  rw [confirmEach, yields_bind] at h
  exact h

theorem Holds.confirmEach {reconciler : Reconciler} {key : Text} {anchor : Anchor}
    {later : List (Text × Anchor)} {u : Unit} {w w' : Workspace} (hholds : Holds key anchor w)
    (hdry : reconciler.dryRun = false)
    (hother : ∀ s ∈ later, ¬(s.1 = key ∧ s.2.file = anchor.file))
    (h : (reconciler.confirmEach later).Yields w u w') : w.Saved w' ∧ Holds key anchor w' := by
  induction later generalizing w with
  | nil =>
    obtain ⟨-, rfl⟩ := yields_pure.1 h
    exact ⟨.of_eq rfl rfl, hholds⟩
  | cons s later ih =>
    obtain ⟨answer, w₁, hconfirm, hrest⟩ := yields_confirmEach_cons h
    have hsaved := (yields_confirm_recorded hdry hconfirm).1
    have hholds₁ := hholds.confirm hdry (hother s (by simp)) hconfirm
    obtain ⟨hsaved', hholds'⟩ := ih hholds₁ (fun t ht => hother t (by simp [ht])) hrest
    exact ⟨hsaved.trans hsaved', hholds'⟩

/-- After confirmations one after another, the last one for each task and file holds. -/
theorem holds_of_confirmEach {reconciler : Reconciler} {key : Text} {anchor : Anchor}
    {earlier later : List (Text × Anchor)} {u : Unit} {w w' : Workspace}
    (hdry : reconciler.dryRun = false)
    (hread : ∀ s ∈ earlier ++ (key, anchor) :: later, Document.readBack s.2 = [s.2])
    (hlast : ∀ s ∈ later, ¬(s.1 = key ∧ s.2.file = anchor.file))
    (h : (reconciler.confirmEach (earlier ++ (key, anchor) :: later)).Yields w u w') :
    w.Saved w' ∧ Holds key anchor w' := by
  induction earlier generalizing w with
  | nil =>
    obtain ⟨answer, w₁, hconfirm, hrest⟩ := yields_confirmEach_cons h
    have hread₀ := hread (key, anchor) (by simp)
    have hsaved := (yields_confirm hdry hread₀ hconfirm).1
    obtain ⟨hsaved', hholds⟩ := (holds_of_confirm hdry hread₀ hconfirm).confirmEach hdry hlast hrest
    exact ⟨hsaved.trans hsaved', hholds⟩
  | cons s earlier ih =>
    obtain ⟨answer, w₁, hconfirm, hrest⟩ := yields_confirmEach_cons h
    have hsaved := (yields_confirm hdry (hread s (by simp)) hconfirm).1
    obtain ⟨hsaved', hholds⟩ := ih (fun t ht => hread t (List.mem_cons_of_mem s ht)) hrest
    exact ⟨hsaved.trans hsaved', hholds⟩

/-- A step with another anchor, or one that passes over it, keeps a recorded anchor. -/
theorem Step.mem_anchors {reconciler : Reconciler} {key : Text} {roots : List Location}
    {kept kept' : List Text} {a anchor : Anchor} {as : List Anchor} {w w' : Workspace}
    (hdry : reconciler.dryRun = false) (h : Step reconciler key roots kept a w kept' w')
    (has : w.anchors key = .ok as) (hmem : anchor ∈ as)
    (hpass : a = anchor → w' = w) :
    ∃ as', w'.anchors key = .ok as' ∧ anchor ∈ as' := by
  by_cases ha : a = anchor
  · rw [hpass ha]
    exact ⟨as, has, hmem⟩
  · have hne : anchor ≠ a := Ne.symm ha
    cases h with
    | outside => exact ⟨as, has, hmem⟩
    | confirmed => exact ⟨as, has, hmem⟩
    | superseded _ _ _ h =>
      obtain ⟨as₀, has₀, hafter⟩ := (yields_supersede h).2 hdry
      rw [has] at has₀
      cases has₀
      exact ⟨_, hafter, by simp [hmem, hne]⟩
    | rechecked _ _ _ h =>
      obtain ⟨-, -, ⟨-, hsame⟩ | ⟨-, hreplaced⟩⟩ := yields_recheck h
      · exact ⟨as, hsame.trans has, hmem⟩
      · obtain ⟨as₀, as', has₀, has', extra, rfl, -⟩ := hreplaced hdry
        rw [has] at has₀
        cases has₀
        exact ⟨_, has', by simp [hmem, hne]⟩

/-- Going through anchors keeps a recorded anchor when every step passes over it. -/
theorem mem_anchors_of_passed {reconciler : Reconciler} {key : Text} {roots : List Location}
    {kept : List Text} {todo as : List Anchor} {anchor : Anchor} {checks : List AnchorVerdict}
    {w w' : Workspace} (hdry : reconciler.dryRun = false)
    (hpass : ∀ kept v kept' v', w.Onward v → Step reconciler key roots kept anchor v kept' v' →
      v' = v)
    (h : (reconciler.reconcileAnchors key roots kept todo).Yields w checks w')
    (has : w.anchors key = .ok as) (hmem : anchor ∈ as) :
    ∃ as', w'.anchors key = .ok as' ∧ anchor ∈ as' := by
  induction todo generalizing kept as checks w with
  | nil =>
    obtain ⟨-, rfl⟩ := yields_pure.1 h
    exact ⟨as, has, hmem⟩
  | cons a rest ih =>
    obtain ⟨kept', w₁, others, hstep, hrest⟩ := yields_reconcileAnchors_cons h
    have hstep_pass : a = anchor → w₁ = w := by
      rintro rfl
      exact hpass _ _ _ _ (.refl w) hstep
    obtain ⟨as₁, has₁, hmem₁⟩ := hstep.mem_anchors hdry has hmem hstep_pass
    exact ih (fun kept v kept' v' hv hs =>
      hpass kept v kept' v' (hstep.touched.onward.trans hv) hs) hrest has₁ hmem₁

/-- The new names of files are plain paths. -/
def PlainNames (reconciler : Reconciler) : Prop :=
  ∀ rename ∈ reconciler.renames, Anchor.IsPlain rename.2

theorem newName?_getD {reconciler : Reconciler} (hnames : reconciler.PlainNames) (file : Text) :
    (reconciler.newName? file).getD file = reconciler.effective file := by
  rw [newName?, effective]
  split
  · rename_i hempty
    exact absurd rfl (hnames _ (Fields.mem_of_get? hempty)).nonempty
  · rfl

theorem addressable_effective {reconciler : Reconciler} (hnames : reconciler.PlainNames)
    {file : Text} (hfile : Anchor.Addressable file) :
    Anchor.Addressable (reconciler.effective file) := by
  rw [effective]
  cases hname : Fields.get? reconciler.renames file with
  | none => exact hfile
  | some name => exact (hnames _ (Fields.mem_of_get? hname)).addressable

/-- An anchor in a file that has its anchor already is not recorded by a step. -/
theorem Step.not_mem_anchors {reconciler : Reconciler} {key : Text} {roots : List Location}
    {kept kept' : List Text} {a anchor : Anchor} {as : List Anchor} {w w' : Workspace}
    (hdry : reconciler.dryRun = false) (hnames : reconciler.PlainNames)
    (h : Step reconciler key roots kept a w kept' w') (hwritten : a.IsWritten)
    (hkept : anchor.file ∈ kept) (has : w.anchors key = .ok as) (habsent : anchor ∉ as) :
    ∃ as', w'.anchors key = .ok as' ∧ anchor ∉ as' := by
  cases h with
  | outside => exact ⟨as, has, habsent⟩
  | confirmed => exact ⟨as, has, habsent⟩
  | superseded _ _ _ h =>
    obtain ⟨as₀, has₀, hafter⟩ := (yields_supersede h).2 hdry
    rw [has] at has₀
    cases has₀
    exact ⟨_, hafter, fun hmem => habsent (List.mem_filter.1 hmem).1⟩
  | rechecked _ _ hunkept h =>
    obtain ⟨hinspect, -, ⟨-, hsame⟩ | ⟨hmoved, hreplaced⟩⟩ := yields_recheck h
    · exact ⟨as, hsame.trans has, habsent⟩
    · obtain ⟨as₀, as', has₀, has', hreplaced⟩ := hreplaced hdry
      rw [has] at has₀
      cases has₀
      rcases settled_of_inspect hinspect with ⟨hstill, -⟩ | ⟨hfile, hline⟩
      · exact absurd hstill hmoved
      · rw [newName?_getD hnames] at hfile
        have hread := Document.readBack_of_isWritten
          ⟨hfile ▸ addressable_effective hnames hwritten.addressable, hline hwritten.line_pos⟩
        rw [hreplaced.eq hread] at has'
        refine ⟨_, has', fun hmem => ?_⟩
        have hmem' := (List.mem_filter.1 hmem).1
        rw [List.mem_append] at hmem'
        rcases hmem' with hold | hnew
        · exact habsent hold
        · split at hnew
          · cases hnew
          · rw [List.mem_singleton.1 hnew, hfile] at hkept
            exact hunkept hkept

/-- Going through anchors loses one that a step drops. -/
theorem not_mem_anchors_of_dropped {reconciler : Reconciler} {key : Text} {roots : List Location}
    {kept : List Text} {todo : List Anchor} {anchor : Anchor} {checks : List AnchorVerdict}
    {w w' : Workspace} (hdry : reconciler.dryRun = false) (hnames : reconciler.PlainNames)
    (hdrop : ∀ kept v kept' v', w.Onward v → Step reconciler key roots kept anchor v kept' v' →
      ∃ as', v'.anchors key = .ok as' ∧ anchor ∉ as')
    (h : (reconciler.reconcileAnchors key roots kept todo).Yields w checks w')
    (hwritten : ∀ a ∈ todo, a.IsWritten) (hkept : anchor.file ∈ kept)
    (htodo : anchor ∈ todo ∨ ∃ as, w.anchors key = .ok as ∧ anchor ∉ as) :
    ∃ as', w'.anchors key = .ok as' ∧ anchor ∉ as' := by
  induction todo generalizing kept checks w with
  | nil =>
    obtain ⟨-, rfl⟩ := yields_pure.1 h
    rcases htodo with htodo | habsent
    · cases htodo
    · exact habsent
  | cons a rest ih =>
    obtain ⟨kept', w₁, others, hstep, hrest⟩ := yields_reconcileAnchors_cons h
    have hnext : anchor ∈ rest ∨ ∃ as, w₁.anchors key = .ok as ∧ anchor ∉ as := by
      by_cases ha : a = anchor
      · subst ha
        exact .inr (hdrop _ _ _ _ (.refl w) hstep)
      · rcases htodo with htodo | ⟨as, has, habsent⟩
        · exact .inl (by simpa [Ne.symm ha] using htodo)
        · exact .inr (hstep.not_mem_anchors hdry hnames (hwritten a (by simp)) hkept has habsent)
    exact ih (fun kept v kept' v' hv hs =>
      hdrop kept v kept' v' (hstep.touched.onward.trans hv) hs) hrest
      (fun b hb => hwritten b (by simp [hb])) (hstep.kept_subset hkept) hnext

theorem anchors_of_reconcileAnchors {reconciler : Reconciler} {key : Text} {roots : List Location}
    {kept : List Text} {todo as : List Anchor} {checks : List AnchorVerdict} {w w' : Workspace}
    (hdry : reconciler.dryRun = false)
    (h : (reconciler.reconcileAnchors key roots kept todo).Yields w checks w')
    (has : w.anchors key = .ok as) : ∃ as', w'.anchors key = .ok as' := by
  induction todo generalizing kept as checks w with
  | nil =>
    obtain ⟨-, rfl⟩ := yields_pure.1 h
    exact ⟨as, has⟩
  | cons a rest ih =>
    obtain ⟨kept', w₁, others, hstep, hrest⟩ := yields_reconcileAnchors_cons h
    have hnext : ∃ as₁, w₁.anchors key = .ok as₁ := by
      cases hstep with
      | outside => exact ⟨as, has⟩
      | confirmed => exact ⟨as, has⟩
      | superseded _ _ _ h =>
        obtain ⟨_, -, hafter⟩ := (yields_supersede h).2 hdry
        exact ⟨_, hafter⟩
      | rechecked _ _ _ h =>
        obtain ⟨-, -, ⟨-, hsame⟩ | ⟨-, hreplaced⟩⟩ := yields_recheck h
        · exact ⟨as, hsame.trans has⟩
        · obtain ⟨_, as₁, -, has₁, -⟩ := hreplaced hdry
          exact ⟨as₁, has₁⟩
    obtain ⟨as₁, has₁⟩ := hnext
    exact ih hrest has₁

/-- An anchor is in a file that was renamed, and the file under its new name is missing or can be
read; saving leaves both paths alone. -/
structure Renamed (reconciler : Reconciler) (key : Text) (anchor : Anchor) (name : Text)
    (w : Workspace) : Prop where
  renamed : reconciler.newName? anchor.file = some name
  other : name ≠ anchor.file
  still : w.Undisturbed (reconciler.path anchor.file)
  still_new : w.Undisturbed (reconciler.path name)
  readable : ∀ check, reconciler.inspect w.disk.tree key anchor = .ok check →
    check.state ≠ .unreadable

theorem get?_of_newName? {reconciler : Reconciler} {file name : Text}
    (h : reconciler.newName? file = some name) :
    Fields.get? reconciler.renames file = some name := by
  rw [newName?] at h
  split at h
  · cases h
  · exact h

theorem Renamed.saved {reconciler : Reconciler} {key name : Text} {anchor : Anchor}
    {w w' : Workspace} (h : Renamed reconciler key anchor name w) (hsaved : w.Saved w') :
    Renamed reconciler key anchor name w' := by
  refine ⟨h.renamed, h.other, hsaved.undisturbed h.still, hsaved.undisturbed h.still_new, ?_⟩
  rw [inspect_congr key (by rw [h.renamed]; exact hsaved.agreeAt h.still_new)]
  exact h.readable

theorem Renamed.isBelow {reconciler : Reconciler} {key name : Text} {anchor : Anchor}
    {w w' : Workspace} (h : Renamed reconciler key anchor name w) (hsaved : w.Saved w')
    (roots : List Location) :
    reconciler.isBelow w'.disk.tree roots anchor = reconciler.isBelow w.disk.tree roots anchor := by
  apply isBelow_congr roots (hsaved.agreeAt h.still)
  intro new hnew
  rw [get?_of_newName? h.renamed] at hnew
  cases hnew
  exact hsaved.agreeAt h.still_new

/-- A step drops an anchor in a renamed file below the roots. -/
theorem Step.drops_renamed {reconciler : Reconciler} {key name : Text} {roots : List Location}
    {kept kept' : List Text} {anchor : Anchor} {w w' : Workspace}
    (hdry : reconciler.dryRun = false) (h : Step reconciler key roots kept anchor w kept' w')
    (hrenamed : Renamed reconciler key anchor name w)
    (hbelow : reconciler.isBelow w.disk.tree roots anchor ≠ .ok false) :
    ∃ as', w'.anchors key = .ok as' ∧ anchor ∉ as' := by
  cases h with
  | outside hout => exact absurd hout hbelow
  | confirmed _ _ hsame =>
    rw [effective, get?_of_newName? hrenamed.renamed] at hsame
    exact absurd hsame hrenamed.other
  | superseded _ _ _ h =>
    obtain ⟨as, -, hafter⟩ := (yields_supersede h).2 hdry
    exact ⟨_, hafter, by simp⟩
  | rechecked _ _ _ h =>
    obtain ⟨hinspect, -, ⟨hstill, -⟩ | ⟨-, hreplaced⟩⟩ := yields_recheck h
    · rcases settled_of_inspect hinspect with ⟨-, hunread⟩ | ⟨hfile, -⟩
      · exact absurd hunread (hrenamed.readable _ hinspect)
      · rw [hstill, hrenamed.renamed] at hfile
        exact absurd hfile.symm hrenamed.other
    · obtain ⟨as, as', -, has', extra, rfl, -⟩ := hreplaced hdry
      exact ⟨_, has', by simp⟩

/-- After any confirmations, reconciling keeps the anchor that was confirmed last for a task and a
file when the file has no new name. When the file was renamed, although its old name was sighted,
reconciling keeps the anchor exactly when it is outside the roots. -/
theorem confirmed_anchor_kept_iff {reconciler : Reconciler} {roots : List Location} {key : Text}
    {anchor : Anchor} {earlier later : List (Text × Anchor)} {checks : List AnchorVerdict}
    {w w' : Workspace} (hdry : reconciler.dryRun = false) (hnames : reconciler.PlainNames)
    (hplain : ∀ s ∈ earlier ++ (key, anchor) :: later, Anchor.IsPlain s.2.file ∧ 1 ≤ s.2.line)
    (hlast : ∀ s ∈ later, ¬(s.1 = key ∧ s.2.file = anchor.file))
    (hrun : Yields (do
      reconciler.confirmEach (earlier ++ (key, anchor) :: later)
      reconciler.reconcile roots) w checks w') :
    ∃ after, w'.anchors key = .ok after ∧
      (reconciler.effective anchor.file = anchor.file → anchor ∈ after) ∧
      ∀ name, Renamed reconciler key anchor name w →
        (anchor ∈ after ↔ reconciler.isBelow w.disk.tree roots anchor = .ok false) := by
  obtain ⟨_, v, heach, hreconcile⟩ := yields_bind.1 hrun
  have hread : ∀ s ∈ earlier ++ (key, anchor) :: later, Document.readBack s.2 = [s.2] :=
    fun s hs => Document.readBack_of_isWritten ⟨(hplain s hs).1.addressable, (hplain s hs).2⟩
  obtain ⟨hsaved, hholds⟩ := holds_of_confirmEach hdry hread hlast heach
  obtain ⟨before, hbefore, hmem⟩ := hholds.recorded
  obtain ⟨v₁, v₂, own, honward, h₁, hown, h₂⟩ :=
    exists_of_reconcile hbefore hreconcile
  have hkept (hpass : ∀ kept u kept' u', v₁.Onward u →
      Step reconciler key roots kept anchor u kept' u' → u' = u) :
      ∃ after, w'.anchors key = .ok after ∧ anchor ∈ after := by
    rw [h₂]
    exact mem_anchors_of_passed hdry hpass hown h₁ hmem
  obtain ⟨after, hafter⟩ : ∃ after, w'.anchors key = .ok after :=
    h₂ ▸ anchors_of_reconcileAnchors hdry hown h₁
  refine ⟨after, hafter, fun hname => ?_, fun name hrenamed => ⟨fun hin => ?_, fun hout => ?_⟩⟩
  · obtain ⟨after', hafter', hin⟩ := hkept fun kept u kept' u' hu hstep => by
      have hconfirmed := hu.confirmed ▸ honward.confirmed ▸ hholds.confirmed
      cases hstep with
      | outside => rfl
      | confirmed => rfl
      | superseded _ hopen => exact absurd hname (hopen hconfirmed)
      | rechecked _ hopen => exact absurd hname (hopen hconfirmed)
    rw [hafter] at hafter'
    cases hafter'
    exact hin
  · have hsaved₁ := hsaved.trans honward.saved
    by_cases hout : reconciler.isBelow w.disk.tree roots anchor = .ok false
    · exact hout
    · obtain ⟨after', hafter', habsent⟩ := not_mem_anchors_of_dropped hdry hnames
        (fun kept u kept' u' hu hstep => by
          have hsaved₂ := hsaved₁.trans hu.saved
          exact hstep.drops_renamed hdry (hrenamed.saved hsaved₂)
            (hrenamed.isBelow hsaved₂ roots ▸ hout)) hown
        (fun a ha => Document.isWritten_of_mem_anchors hbefore (List.mem_reverse.1 ha))
        (mem_filesOf.2 hholds.confirmed) (.inl (List.mem_reverse.2 hmem))
      rw [h₂, hafter'] at hafter
      cases hafter
      exact absurd hin habsent
  · have hsaved₁ := hsaved.trans honward.saved
    obtain ⟨after', hafter', hin⟩ := hkept fun kept u kept' u' hu hstep => by
      have hbelow := hrenamed.isBelow (hsaved₁.trans hu.saved) roots
      rw [hout] at hbelow
      cases hstep with
      | outside => rfl
      | confirmed => rfl
      | superseded h => rw [hbelow] at h; cases h
      | rechecked h => rw [hbelow] at h; cases h
    rw [hafter] at hafter'
    cases hafter'
    exact hin

/-- A file that holds a key was renamed, and there is a file under its old name again. -/
def renamedWorkspace : Workspace := .inMemory
  ⟨[(["repo".toList], .directory),
    (["repo".toList, "a.py".toList], .file (Utf8.encode "# TODO(PROJ-1): again\n".toList)),
    (["repo".toList, "b.py".toList], .file (Utf8.encode "# TODO(PROJ-1): fix\n".toList))],
    by decide⟩
  ⟨[("PROJ-1".toList, .object [])], by decide⟩

def renamingReconciler : Reconciler :=
  ⟨["repo".toList], 20, [("a.py".toList, "b.py".toList)], false⟩

/-- The anchor that was just confirmed in the file under the old name is lost. -/
theorem confirmed_anchor_lost_in_renamed_file :
    ∃ after,
      ((do renamingReconciler.confirmEach [("PROJ-1".toList, ⟨"a.py".toList, 1⟩)]
           renamingReconciler.reconcile [["repo".toList]] : Work _).run
        renamedWorkspace).2.anchors "PROJ-1".toList = .ok after ∧
      ⟨"a.py".toList, 1⟩ ∉ after := by
  have hplain : ∀ name : Text, name = "a.py".toList ∨ name = "b.py".toList →
      Anchor.IsPlain name := by
    rintro name (rfl | rfl) <;> exact ⟨by decide, by decide, by decide⟩
  have hnames : renamingReconciler.PlainNames := by
    intro rename hrename
    rw [List.mem_singleton.1 hrename]
    exact hplain _ (.inr rfl)
  obtain ⟨checks, hrun⟩ : ∃ checks, Yields (do
      renamingReconciler.confirmEach ([] ++ ("PROJ-1".toList, ⟨"a.py".toList, 1⟩) :: [])
      renamingReconciler.reconcile [["repo".toList]]) renamedWorkspace checks _ :=
    exists_yields (by cbv)
  obtain ⟨after, hafter, -, hiff⟩ := confirmed_anchor_kept_iff rfl hnames
    (fun s hs => by rw [List.mem_singleton.1 hs]; exact ⟨hplain _ (.inl rfl), by decide⟩)
    (fun s hs => by cases hs) hrun
  have hrenamed : Renamed renamingReconciler "PROJ-1".toList ⟨"a.py".toList, 1⟩ "b.py".toList
      renamedWorkspace := by
    refine ⟨by decide, by decide, Workspace.undisturbed_inMemory _ _ _,
      Workspace.undisturbed_inMemory _ _ _, ?_⟩
    have hinspect : renamingReconciler.inspect renamedWorkspace.disk.tree "PROJ-1".toList
        ⟨"a.py".toList, 1⟩ = .ok {
          key := "PROJ-1".toList, anchor := ⟨"a.py".toList, 1⟩, state := .renamed,
          place := some ⟨"b.py".toList, 1⟩ } := by cbv
    rw [hinspect]
    rintro _ ⟨⟩
    decide
  have hbelow : renamingReconciler.isBelow renamedWorkspace.disk.tree [["repo".toList]]
      ⟨"a.py".toList, 1⟩ = .ok true := by cbv
  refine ⟨after, hafter, fun hin => ?_⟩
  rw [(hiff _ hrenamed).1 hin] at hbelow
  cases hbelow

end Reconciler

end TodoTracker
