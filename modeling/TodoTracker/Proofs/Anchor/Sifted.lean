import TodoTracker.Proofs.Anchor.Sighted
import TodoTracker.Proofs.Anchor.Standing

/-!
# Going through the anchors of a task

Anchors count for the file under its new name. Once one of them was looked at, all later ones that
count for the same file are dropped, and none of another file moves there. So of the anchors that
are looked at, one is left for each file, at the place where it was settled.
-/

set_option autoImplicit false

namespace TodoTracker

namespace Reconciler

open Work

variable {reconciler : Reconciler} {key file : Text} {roots : List Location}
  {kept kept' : List Text} {as : List Anchor} {w w' : Workspace}

/-- New names are plain paths, and a file that has one is not renamed again. -/
structure Direct (reconciler : Reconciler) : Prop where
  plain : ∀ rename ∈ reconciler.renames, rename.2 ≠ [] → Anchor.IsPlain rename.2
  final : ∀ rename ∈ reconciler.renames, Fields.get? reconciler.renames rename.2 = none

theorem effective_of_get? {name : Text} (h : Fields.get? reconciler.renames file = some name) :
    reconciler.effective file = name := by
  rw [effective, h]
  rfl

theorem Direct.effective_newName (hdirect : reconciler.Direct) (file : Text) :
    reconciler.effective ((reconciler.newName? file).getD file) = reconciler.effective file := by
  cases hname : reconciler.newName? file with
  | none => rfl
  | some name =>
    have hget := get?_of_newName? hname
    have hlast := hdirect.final _ (Fields.mem_of_get? hget)
    rw [Option.getD_some, effective_of_get? hget, effective, hlast]
    rfl

/-- Where an anchor is settled it counts for the same file, and it can be written there. -/
theorem Direct.settled (hdirect : reconciler.Direct) {tree : FileTree} {anchor : Anchor}
    {check : AnchorVerdict} (h : reconciler.inspect tree key anchor = .ok check) :
    reconciler.effective check.settled.file = reconciler.effective anchor.file ∧
      (anchor.IsWritten → check.settled.IsWritten) := by
  rcases settled_of_inspect h with ⟨hstill, -⟩ | ⟨hfile, hline⟩
  · rw [hstill]
    exact ⟨rfl, id⟩
  · rw [hfile]
    refine ⟨hdirect.effective_newName anchor.file, fun hwritten => ⟨?_, hline hwritten.line_pos⟩⟩
    rw [hfile]
    cases hname : reconciler.newName? anchor.file with
    | none => exact hwritten.addressable
    | some name =>
      have hget := get?_of_newName? hname
      have hne : name ≠ [] := by
        rintro rfl
        rw [newName?, hget] at hname
        cases hname
      exact (hdirect.plain _ (Fields.mem_of_get? hget) hne).addressable

/-- The anchors of a task with `old` replaced by `new`. -/
def replaced (as : List Anchor) (old new : Anchor) : List Anchor :=
  if new = old then as else (as ++ if new ∈ as then [] else [new]).filter (· ≠ old)

theorem mem_replaced {old new a : Anchor} (h : a ∈ replaced as old new) :
    a = new ∨ a ∈ as ∧ a ≠ old := by
  rw [replaced] at h
  split at h
  · rename_i hsame
    by_cases ha : a = old
    · exact .inl (ha.trans hsame.symm)
    · exact .inr ⟨h, ha⟩
  · simp only [ne_eq, decide_not, List.mem_filter, List.mem_append, Bool.not_eq_true',
      decide_eq_false_iff_not] at h
    obtain ⟨hold | hnew, ha⟩ := h
    · exact .inr ⟨hold, ha⟩
    · split at hnew
      · cases hnew
      · exact .inl (List.mem_singleton.1 hnew)

/-- A check puts an anchor to the place where it is settled. -/
theorem Direct.yields_recheck (hdirect : reconciler.Direct) (hdry : reconciler.dryRun = false)
    {anchor : Anchor} {check : AnchorVerdict} (hwritten : anchor.IsWritten)
    (has : w.anchors key = .ok as) (h : (reconciler.recheck key anchor).Yields w check w') :
    reconciler.inspect w.disk.tree key anchor = .ok check ∧
      w'.anchors key = .ok (replaced as anchor check.settled) := by
  obtain ⟨hinspect, -, ⟨hstill, hsame⟩ | ⟨hmoved, hreplaced⟩⟩ := Reconciler.yields_recheck h
  · rw [replaced, if_pos hstill]
    exact ⟨hinspect, hsame.trans has⟩
  · obtain ⟨as₀, as', has₀, has', hreplaced⟩ := hreplaced hdry
    rw [has] at has₀
    cases has₀
    have hread := Document.readBack_of_isWritten ((hdirect.settled hinspect).2 hwritten)
    rw [replaced, if_neg hmoved, ← hreplaced.eq hread]
    exact ⟨hinspect, has'⟩

/-- Saving the tasks leaves alone what is found at a file, under its old and its new name. -/
structure Steady (reconciler : Reconciler) (w : Workspace) (file : Text) : Prop where
  old : w.Undisturbed (reconciler.path file)
  new : w.Undisturbed (reconciler.path (reconciler.effective file))

theorem Steady.saved (h : reconciler.Steady w file) (hsaved : w.Saved w') :
    reconciler.Steady w' file :=
  ⟨hsaved.undisturbed h.old, hsaved.undisturbed h.new⟩

theorem Steady.isBelow {anchor : Anchor} (h : reconciler.Steady w anchor.file)
    (hsaved : w.Saved w') :
    reconciler.isBelow w'.disk.tree roots anchor = reconciler.isBelow w.disk.tree roots anchor := by
  refine isBelow_congr roots (hsaved.agreeAt h.old) fun name hname => ?_
  rw [← effective_of_get? hname]
  exact hsaved.agreeAt h.new

theorem Steady.inspect {anchor : Anchor} (h : reconciler.Steady w anchor.file)
    (hsaved : w.Saved w') :
    reconciler.inspect w'.disk.tree key anchor = reconciler.inspect w.disk.tree key anchor := by
  refine inspect_congr key (hsaved.agreeAt ?_)
  cases hname : reconciler.newName? anchor.file with
  | none => exact h.old
  | some name => exact effective_of_get? (get?_of_newName? hname) ▸ h.new

theorem count_cons_eq (a b : Anchor) (as : List Anchor) :
    (b :: as).count a = as.count a + if a = b then 1 else 0 := by
  rw [List.count_cons]
  by_cases h : a = b
  · simp [h]
  · simp [h, Ne.symm h]

theorem count_filter_ne_le {old a : Anchor} {n : Nat}
    (h : as.count a ≤ n + if a = old then 1 else 0) : (as.filter (· ≠ old)).count a ≤ n := by
  by_cases ha : a = old
  · rw [List.count_eq_zero.2 (by simp [ha])]
    exact Nat.zero_le n
  · rw [List.count_filter (by simpa using ha)]
    simpa [ha] using h

/-- Of an anchor that is replaced one copy is gone, and of its place there is one at most more. -/
theorem count_replaced_le {old new a : Anchor} {n : Nat}
    (h : as.count a ≤ n + if a = old then 1 else 0) :
    (replaced as old new).count a ≤ n + if a = new then 1 else 0 := by
  rw [replaced]
  split
  · rename_i hsame
    rw [hsame]
    exact h
  · rw [List.filter_append, List.count_append]
    refine Nat.add_le_add (count_filter_ne_le h) ?_
    refine Nat.le_trans (List.filter_sublist.count_le a) ?_
    split
    · exact Nat.zero_le _
    · rw [count_cons_eq, List.count_nil, Nat.zero_add]

/-- What is known of the anchors that count for a file and are looked at, while those in `todo` are
still to come: if none was looked at, all are among these, and else all but one that is settled. -/
def Sifted (name : Text) (counts settled : Anchor → Prop) (kept : List Text)
    (todo as : List Anchor) : Prop :=
  (name ∉ kept ∧ ∀ a, counts a → as.count a ≤ todo.count a) ∨
    (name ∈ kept ∧ ∃ s, settled s ∧
      ∀ a, counts a → as.count a ≤ todo.count a + if a = s then 1 else 0)

/-- An anchor that counts for a file, when all were looked at, is the one that is settled. -/
theorem Sifted.eq {name : Text} {counts settled : Anchor → Prop}
    (h : Sifted name counts settled kept [] as) :
    ∃ s, (settled s ∨ ∀ a ∈ as, ¬counts a) ∧
      ∀ a ∈ as, counts a → a = s ∧ as.count a ≤ 1 := by
  rcases h with ⟨-, hnone⟩ | ⟨-, s, hs, hall⟩
  · have hno : ∀ a ∈ as, ¬counts a := fun a ha hcounts =>
      absurd (List.count_pos_iff.2 ha) (Nat.not_lt.2 (hnone a hcounts))
    exact ⟨⟨[], 0⟩, .inr hno, fun a ha hcounts => absurd hcounts (hno a ha)⟩
  · refine ⟨s, .inl hs, fun a ha hcounts => ?_⟩
    have hpos := List.count_pos_iff.2 ha
    have hle := hall a hcounts
    rw [List.count_nil] at hle
    by_cases hsame : a = s
    · simp only [hsame, if_true] at hle ⊢
      exact ⟨trivial, by omega⟩
    · simp only [hsame, if_false] at hle
      omega

section Sifting

variable {name : Text} {counts settled : Anchor → Prop} {anchor : Anchor} {rest : List Anchor}

/-- The step was not about an anchor that counts. -/
theorem Sifted.skip (h : Sifted name counts settled kept (anchor :: rest) as)
    (hskip : ¬counts anchor) : Sifted name counts settled kept rest as := by
  have hrest : ∀ a, counts a → (anchor :: rest).count a = rest.count a := by
    intro a ha
    rw [List.count_cons_of_ne]
    rintro rfl
    exact hskip ha
  rcases h with ⟨hkept, hall⟩ | ⟨hkept, s, hs, hall⟩
  · exact .inl ⟨hkept, fun a ha => hrest a ha ▸ hall a ha⟩
  · exact .inr ⟨hkept, s, hs, fun a ha => hrest a ha ▸ hall a ha⟩

/-- The anchor that the step was about is gone. -/
theorem Sifted.drop {as' : List Anchor} (h : Sifted name counts settled kept (anchor :: rest) as)
    (hdrop : ∀ a, counts a → ∀ n, as.count a ≤ n + (if a = anchor then 1 else 0) →
      as'.count a ≤ n) : Sifted name counts settled kept rest as' := by
  rcases h with ⟨hkept, hall⟩ | ⟨hkept, s, hs, hall⟩
  · refine .inl ⟨hkept, fun a ha => hdrop a ha _ ?_⟩
    rw [← count_cons_eq]
    exact hall a ha
  · refine .inr ⟨hkept, s, hs, fun a ha => hdrop a ha _ ?_⟩
    rw [Nat.add_right_comm, ← count_cons_eq]
    exact hall a ha

theorem Step.sifted (hdirect : reconciler.Direct) (hdry : reconciler.dryRun = false)
    (h : Step reconciler key roots kept anchor w kept' w') (hwritten : anchor.IsWritten)
    (hname : ∀ a, counts a → reconciler.effective a.file = name)
    (hlooked : counts anchor → reconciler.isBelow w.disk.tree roots anchor = .ok true ∧
      ((key, anchor.file) ∈ w.sightings.confirmed →
        reconciler.effective anchor.file ≠ anchor.file))
    (hsettled : reconciler.effective anchor.file = name → ∀ check,
      reconciler.inspect w.disk.tree key anchor = .ok check → settled check.settled)
    (has : w.anchors key = .ok as)
    (hsifted : Sifted name counts settled kept (anchor :: rest) as) :
    ∃ as', w'.anchors key = .ok as' ∧ Sifted name counts settled kept' rest as' := by
  cases h with
  | outside hbelow =>
    refine ⟨as, has, hsifted.skip fun hcounts => ?_⟩
    rw [(hlooked hcounts).1] at hbelow
    cases hbelow
  | confirmed _ hconfirmed hsame =>
    exact ⟨as, has, hsifted.skip fun hcounts => (hlooked hcounts).2 hconfirmed hsame⟩
  | superseded _ _ _ h =>
    obtain ⟨as₀, has₀, hafter⟩ := (yields_supersede h).2 hdry
    rw [has] at has₀
    cases has₀
    exact ⟨_, hafter, hsifted.drop fun a _ n hn => count_filter_ne_le hn⟩
  | @rechecked check _ hbelow hopen hunkept h =>
    obtain ⟨hinspect, hafter⟩ := hdirect.yields_recheck hdry hwritten has h
    refine ⟨_, hafter, ?_⟩
    by_cases hsame : reconciler.effective anchor.file = name
    · -- the anchor is the first one that counts for this file
      rcases hsifted with ⟨-, hall⟩ | ⟨hkept, -⟩
      · refine .inr ⟨by rw [hsame]; exact List.mem_cons_self, check.settled,
          hsettled hsame check hinspect, fun a ha => count_replaced_le ?_⟩
        rw [← count_cons_eq]
        exact hall a ha
      · exact absurd (hsame ▸ hkept) hunkept
    · have hplace : ∀ a, counts a → a ≠ check.settled := by
        rintro a ha rfl
        exact hsame ((hdirect.settled hinspect).1.symm.trans (hname _ ha))
      have hdrop : ∀ a, counts a → ∀ n, as.count a ≤ n + (if a = anchor then 1 else 0) →
          (replaced as anchor check.settled).count a ≤ n := by
        intro a ha n hn
        have hle : (replaced as anchor check.settled).count a ≤
            n + if a = check.settled then 1 else 0 := count_replaced_le hn
        simpa [hplace a ha] using hle
      have hnext := hsifted.drop hdrop
      simpa only [Sifted, List.mem_cons, Ne.symm hsame, false_or] using hnext

/-- Going through the anchors of a task sifts those that count for a file. -/
theorem sifted_of_reconcileAnchors {todo : List Anchor} {checks : List AnchorVerdict}
    (hdirect : reconciler.Direct) (hdry : reconciler.dryRun = false)
    (h : (reconciler.reconcileAnchors key roots kept todo).Yields w checks w')
    (hwritten : ∀ a ∈ todo, a.IsWritten)
    (hname : ∀ a, counts a → reconciler.effective a.file = name)
    (hlooked : ∀ a ∈ todo, counts a → ∀ v, w.Onward v →
      reconciler.isBelow v.disk.tree roots a = .ok true ∧
        ((key, a.file) ∈ v.sightings.confirmed → reconciler.effective a.file ≠ a.file))
    (hsettled : ∀ a ∈ todo, reconciler.effective a.file = name → ∀ v, w.Onward v → ∀ check,
      reconciler.inspect v.disk.tree key a = .ok check → settled check.settled)
    (has : w.anchors key = .ok as) (hsifted : Sifted name counts settled kept todo as) :
    ∃ kept' as', w'.anchors key = .ok as' ∧ Sifted name counts settled kept' [] as' := by
  induction todo generalizing kept as checks w with
  | nil =>
    obtain ⟨-, rfl⟩ := yields_pure.1 h
    exact ⟨kept, as, has, hsifted⟩
  | cons anchor rest ih =>
    obtain ⟨kept', w₁, others, hstep, hrest⟩ := yields_reconcileAnchors_cons h
    have hhead := List.mem_cons_self (a := anchor) (l := rest)
    obtain ⟨as₁, has₁, hsifted₁⟩ := hstep.sifted hdirect hdry (hwritten anchor hhead) hname
      (fun ha => hlooked anchor hhead ha w (.refl w))
      (fun ha => hsettled anchor hhead ha w (.refl w)) has hsifted
    have honward := hstep.touched.onward
    exact ih hrest (fun a ha => hwritten a (List.mem_cons_of_mem _ ha))
      (fun a ha hcounts v hv => hlooked a (List.mem_cons_of_mem _ ha) hcounts v (honward.trans hv))
      (fun a ha hsame v hv => hsettled a (List.mem_cons_of_mem _ ha) hsame v (honward.trans hv))
      has₁ hsifted₁

end Sifting

/-- No step brings an anchor to a file that has its anchor already. -/
theorem Step.anchors_of_kept {anchor : Anchor} (hdirect : reconciler.Direct)
    (hdry : reconciler.dryRun = false) (h : Step reconciler key roots kept anchor w kept' w')
    (hwritten : anchor.IsWritten) (has : w.anchors key = .ok as)
    (hkept : reconciler.effective file ∈ kept) :
    ∃ as', w'.anchors key = .ok as' ∧ ∀ a ∈ as', a.file = file → a ∈ as := by
  cases h with
  | outside => exact ⟨as, has, fun a ha _ => ha⟩
  | confirmed => exact ⟨as, has, fun a ha _ => ha⟩
  | superseded _ _ _ h =>
    obtain ⟨as₀, has₀, hafter⟩ := (yields_supersede h).2 hdry
    rw [has] at has₀
    cases has₀
    exact ⟨_, hafter, fun a ha _ => (List.mem_filter.1 ha).1⟩
  | rechecked _ _ hunkept h =>
    obtain ⟨hinspect, hafter⟩ := hdirect.yields_recheck hdry hwritten has h
    refine ⟨_, hafter, fun a ha hfile => ?_⟩
    rcases mem_replaced ha with rfl | ⟨hold, -⟩
    · have hname := (hdirect.settled hinspect).1
      rw [hfile] at hname
      exact absurd (hname ▸ hkept) hunkept
    · exact hold

/-- Going through the anchors of a task brings none to a file that has its anchor already. -/
theorem subset_of_reconcileAnchors {todo : List Anchor} {checks : List AnchorVerdict}
    (hdirect : reconciler.Direct) (hdry : reconciler.dryRun = false)
    (h : (reconciler.reconcileAnchors key roots kept todo).Yields w checks w')
    (hwritten : ∀ a ∈ todo, a.IsWritten) (hkept : reconciler.effective file ∈ kept)
    (has : w.anchors key = .ok as) :
    ∃ as', w'.anchors key = .ok as' ∧ ∀ a ∈ as', a.file = file → a ∈ as := by
  induction todo generalizing kept as checks w with
  | nil =>
    obtain ⟨-, rfl⟩ := yields_pure.1 h
    exact ⟨as, has, fun a ha _ => ha⟩
  | cons anchor rest ih =>
    obtain ⟨kept', w₁, others, hstep, hrest⟩ := yields_reconcileAnchors_cons h
    obtain ⟨as₁, has₁, hsub⟩ :=
      hstep.anchors_of_kept hdirect hdry (hwritten anchor (by simp)) has hkept
    obtain ⟨as', has', hsub'⟩ := ih hrest (fun a ha => hwritten a (by simp [ha]))
      (hstep.kept_subset hkept) has₁
    exact ⟨as', has', fun a ha hfile => hsub a (hsub' a ha hfile) hfile⟩

/-- Reconciling succeeds only when the references of every task can be gone through. -/
theorem legible_of_reconcile {checks : List AnchorVerdict}
    (h : (reconciler.reconcile roots).Yields w checks w') : w.store.document.Legible := by
  rw [reconcile, yields_bind] at h
  obtain ⟨keys, w₁, hanchored, -⟩ := h
  exact Document.legible_iff.2 ⟨keys, (Tasks.yields_anchored.1 hanchored).1⟩

end Reconciler

end TodoTracker
