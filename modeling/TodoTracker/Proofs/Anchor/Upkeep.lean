import TodoTracker.Anchor.Upkeep
import TodoTracker.Proofs.Anchor.Check

/-!
# The steps of a reconciliation

Reconciling goes through the anchors of a task one by one. A step passes over an anchor that is
outside the roots or was confirmed, drops one whose file has its anchor already, and checks any
other, which moves it to its place. Each step leaves the anchors of other tasks alone.
-/

set_option autoImplicit false

namespace TodoTracker

namespace Reconciler

open Work

/-- The anchors of a task with `old` replaced by `new`, where `extra` was recorded for it. -/
def Replaced (as : List Anchor) (old new : Anchor) (as' : List Anchor) : Prop :=
  ∃ extra, as' = (as ++ extra).filter (· ≠ old) ∧ (∀ b ∈ extra, b ∈ Document.readBack new) ∧
    (Document.readBack new = [new] → extra = if new ∈ as then [] else [new])

theorem yields_move {reconciler : Reconciler} {key : Text} {old new : Anchor} {u : Unit}
    {w w' : Workspace} (h : (reconciler.move key old new).Yields w u w') :
    Tasks.Touched key w w' ∧ (reconciler.dryRun = false → ∃ as as', w.anchors key = .ok as ∧
      w'.anchors key = .ok as' ∧ Replaced as old new as') := by
  rw [move] at h
  split at h
  · rename_i hdry
    obtain ⟨-, rfl⟩ := yields_pure.1 h
    exact ⟨.refl _ _, fun hwet => absurd hdry (by simp [hwet])⟩
  · rw [yields_bind] at h
    obtain ⟨as, w₁, hanchors, h⟩ := h
    obtain ⟨has, rfl⟩ := Tasks.yields_anchors.1 hanchors
    dsimp only at h
    split at h
    · rename_i hnew
      obtain ⟨_, w₂, happend, h⟩ := yields_bind.1 h
      obtain ⟨_, w₃, hremove, h⟩ := yields_bind.1 h
      obtain ⟨-, rfl⟩ := yields_pure.1 h
      obtain ⟨htouched, as', has', hadded⟩ := Tasks.yields_append happend
      obtain ⟨htouched', as'', has'', hremoved⟩ := Tasks.yields_remove hremove
      refine ⟨htouched.trans htouched', fun _ => ⟨as, _, has, hremoved, ?_⟩⟩
      rw [has] at has'
      cases has'
      have habsent : new ∉ as := by simpa using hnew
      rcases hadded with ⟨hback, hsame⟩ | hback
      · rw [hsame] at has''
        cases has''
        refine ⟨[], by simp, by simp, fun hread => ?_⟩
        exact absurd (hback new (by simp [hread])) habsent
      · rw [hback] at has''
        cases has''
        refine ⟨Document.readBack new, rfl, fun b hb => hb, fun hread => ?_⟩
        rw [if_neg habsent, hread]
    · rename_i hnew
      obtain ⟨_, w₂, hremove, h⟩ := yields_bind.1 h
      obtain ⟨-, rfl⟩ := yields_pure.1 h
      obtain ⟨htouched, as', has', hremoved⟩ := Tasks.yields_remove hremove
      rw [has] at has'
      cases has'
      have hpresent : new ∈ as := by simpa using hnew
      refine ⟨htouched, fun _ => ⟨as, _, has, hremoved, [], by simp, by simp, fun _ => ?_⟩⟩
      rw [if_pos hpresent]

theorem yields_supersede {reconciler : Reconciler} {key : Text} {anchor : Anchor} {file : Text}
    {check : AnchorVerdict} {w w' : Workspace}
    (h : (reconciler.supersede key anchor file).Yields w check w') :
    Tasks.Touched key w w' ∧ (reconciler.dryRun = false → ∃ as, w.anchors key = .ok as ∧
      w'.anchors key = .ok (as.filter (· ≠ anchor))) := by
  rw [supersede] at h
  dsimp only at h
  split at h
  · obtain ⟨_, w₁, hremove, h⟩ := yields_bind.1 h
    obtain ⟨-, rfl⟩ := yields_pure.1 h
    obtain ⟨htouched, hremoved⟩ := Tasks.yields_remove hremove
    exact ⟨htouched, fun _ => hremoved⟩
  · rename_i hdry
    obtain ⟨-, rfl⟩ := yields_pure.1 h
    exact ⟨.refl _ _, fun hwet => absurd hwet (by simpa using hdry)⟩

/-- A checked anchor is replaced by one at the place where it belongs now. -/
theorem yields_recheck {reconciler : Reconciler} {key : Text} {anchor : Anchor}
    {check : AnchorVerdict} {w w' : Workspace}
    (h : (reconciler.recheck key anchor).Yields w check w') :
    reconciler.inspect w.disk.tree key anchor = .ok check ∧ Tasks.Touched key w w' ∧
      (check.settled = anchor ∧ w'.anchors key = w.anchors key ∨
        check.settled ≠ anchor ∧ (reconciler.dryRun = false → ∃ as as', w.anchors key = .ok as ∧
          w'.anchors key = .ok as' ∧ Replaced as anchor check.settled as')) := by
  rw [recheck, yields_bind] at h
  obtain ⟨found, w₁, hlook, h⟩ := h
  obtain ⟨hinspect, rfl⟩ := yields_look.1 hlook
  obtain ⟨hanchor, hunread⟩ := inspect_eq_ok hinspect
  dsimp only at h
  split at h
  · rename_i hstate
    obtain ⟨_, w₂, hwarn, h⟩ := yields_bind.1 h
    obtain rfl := yields_modify.1 hwarn
    obtain ⟨rfl, rfl⟩ := yields_pure.1 h
    refine ⟨hinspect, ⟨⟨.of_eq rfl rfl, rfl, rfl⟩, fun _ _ => rfl⟩, .inl ⟨?_, rfl⟩⟩
    rw [AnchorVerdict.settled, hunread hstate, hanchor]
    rfl
  · rename_i place hplace _
    have hsettled : found.settled = place := by rw [AnchorVerdict.settled, hplace]; rfl
    split at h
    · rename_i hmoved
      obtain ⟨_, w₂, hmove, h⟩ := yields_bind.1 h
      obtain ⟨rfl, rfl⟩ := yields_pure.1 h
      obtain ⟨htouched, hreplaced⟩ := yields_move hmove
      refine ⟨hinspect, htouched, .inr ⟨?_, hsettled ▸ hreplaced⟩⟩
      rw [AnchorVerdict.moved, hplace, hanchor] at hmoved
      rw [hsettled]
      simpa using hmoved
    · rename_i hmoved
      obtain ⟨rfl, rfl⟩ := yields_pure.1 h
      refine ⟨hinspect, .refl _ _, .inl ⟨?_, rfl⟩⟩
      rw [AnchorVerdict.moved, hplace, hanchor] at hmoved
      rw [hsettled]
      simpa using hmoved
  · rename_i hplace _
    obtain ⟨rfl, rfl⟩ := yields_pure.1 h
    refine ⟨hinspect, .refl _ _, .inl ⟨?_, rfl⟩⟩
    rw [AnchorVerdict.settled, hplace, hanchor]
    rfl

/-- What is done with one anchor of a task, when the files in `kept` have their anchor. The step
leads to the files that have their anchor then, and to the next workspace. -/
inductive Step (reconciler : Reconciler) (key : Text) (roots : List Location) (kept : List Text)
    (anchor : Anchor) (w : Workspace) : List Text → Workspace → Prop
  | outside (hbelow : reconciler.isBelow w.disk.tree roots anchor = .ok false) :
      Step reconciler key roots kept anchor w kept w
  | confirmed (hbelow : reconciler.isBelow w.disk.tree roots anchor = .ok true)
      (hconfirmed : (key, anchor.file) ∈ w.sightings.confirmed)
      (hname : reconciler.effective anchor.file = anchor.file) :
      Step reconciler key roots kept anchor w kept w
  | superseded {check : AnchorVerdict} {w' : Workspace}
      (hbelow : reconciler.isBelow w.disk.tree roots anchor = .ok true)
      (hopen : (key, anchor.file) ∈ w.sightings.confirmed →
        reconciler.effective anchor.file ≠ anchor.file)
      (hkept : reconciler.effective anchor.file ∈ kept)
      (h : (reconciler.supersede key anchor (reconciler.effective anchor.file)).Yields w check w') :
      Step reconciler key roots kept anchor w kept w'
  | rechecked {check : AnchorVerdict} {w' : Workspace}
      (hbelow : reconciler.isBelow w.disk.tree roots anchor = .ok true)
      (hopen : (key, anchor.file) ∈ w.sightings.confirmed →
        reconciler.effective anchor.file ≠ anchor.file)
      (hkept : reconciler.effective anchor.file ∉ kept)
      (h : (reconciler.recheck key anchor).Yields w check w') :
      Step reconciler key roots kept anchor w (reconciler.effective anchor.file :: kept) w'

theorem Step.touched {reconciler : Reconciler} {key : Text} {roots : List Location}
    {kept kept' : List Text} {anchor : Anchor} {w w' : Workspace}
    (h : Step reconciler key roots kept anchor w kept' w') : Tasks.Touched key w w' := by
  cases h with
  | outside => exact .refl key w
  | confirmed => exact .refl key w
  | superseded _ _ _ h => exact (yields_supersede h).1
  | rechecked _ _ _ h => exact (yields_recheck h).2.1

/-- The check of an anchor that is dropped because there is another one in `file` already. -/
def supersededBy (key : Text) (anchor : Anchor) (file : Text) : AnchorVerdict where
  key := key
  anchor := anchor
  pruned := true
  state := if file = anchor.file then .confirmed else .renamed
  message := "superseded by anchor in ".toList ++ file

theorem answer_of_supersede {reconciler : Reconciler} {key : Text} {anchor : Anchor} {file : Text}
    {check : AnchorVerdict} {w w' : Workspace}
    (h : (reconciler.supersede key anchor file).Yields w check w') :
    check = supersededBy key anchor file := by
  rw [supersede] at h
  dsimp only at h
  split at h
  · obtain ⟨_, w₁, -, h⟩ := yields_bind.1 h
    exact (yields_pure.1 h).1.symm
  · exact (yields_pure.1 h).1.symm

/-- What is reported of an anchor, when the files in `kept` have their anchor: nothing if it is
passed over, and one check of it else. -/
inductive Told (reconciler : Reconciler) (key : Text) (roots : List Location) (kept : List Text)
    (anchor : Anchor) (w : Workspace) : List AnchorVerdict → Prop
  | nothing (hpassed : reconciler.isBelow w.disk.tree roots anchor = .ok false ∨
      (key, anchor.file) ∈ w.sightings.confirmed ∧
        reconciler.effective anchor.file = anchor.file) :
      Told reconciler key roots kept anchor w []
  | superseded (hopen : (key, anchor.file) ∈ w.sightings.confirmed →
        reconciler.effective anchor.file ≠ anchor.file)
      (hkept : reconciler.effective anchor.file ∈ kept) :
      Told reconciler key roots kept anchor w
        [supersededBy key anchor (reconciler.effective anchor.file)]
  | rechecked {check : AnchorVerdict} (hopen : (key, anchor.file) ∈ w.sightings.confirmed →
        reconciler.effective anchor.file ≠ anchor.file)
      (hkept : reconciler.effective anchor.file ∉ kept)
      (h : reconciler.inspect w.disk.tree key anchor = .ok check) :
      Told reconciler key roots kept anchor w [check]

theorem Told.about {reconciler : Reconciler} {key : Text} {roots : List Location}
    {kept : List Text} {anchor : Anchor} {w : Workspace} {told : List AnchorVerdict}
    (h : Told reconciler key roots kept anchor w told) :
    ∀ check ∈ told, check.key = key ∧ check.anchor = anchor := by
  cases h with
  | nothing => simp
  | superseded => simp [supersededBy]
  | rechecked _ _ h => simpa using ⟨key_of_inspect h, (inspect_eq_ok h).1⟩

/-- Going through anchors is a step with the first one, which is reported, and then going through
the rest. -/
theorem told_of_reconcileAnchors {reconciler : Reconciler} {key : Text} {roots : List Location}
    {kept : List Text} {anchor : Anchor} {rest : List Anchor} {checks : List AnchorVerdict}
    {w w'' : Workspace}
    (h : (reconciler.reconcileAnchors key roots kept (anchor :: rest)).Yields w checks w'') :
    ∃ kept' w' told others, Step reconciler key roots kept anchor w kept' w' ∧
      Told reconciler key roots kept anchor w told ∧ checks = told ++ others ∧
      (reconciler.reconcileAnchors key roots kept' rest).Yields w' others w'' := by
  rw [reconcileAnchors, yields_bind] at h
  obtain ⟨below, w₁, hlook, h⟩ := h
  obtain ⟨hbelow, rfl⟩ := yields_look.1 hlook
  split at h
  · rename_i hout
    have hfalse : below = false := by simpa using hout
    subst hfalse
    exact ⟨kept, w₁, [], checks, .outside hbelow, .nothing (.inl hbelow), rfl, h⟩
  · rename_i hout
    have htrue : below = true := by simpa using hout
    subst htrue
    rw [yields_bind] at h
    obtain ⟨v, w₂, hget, h⟩ := h
    obtain ⟨rfl, rfl⟩ := yields_get.1 hget
    split at h
    · rename_i hsame
      rw [Bool.and_eq_true, List.contains_iff_mem, beq_iff_eq] at hsame
      exact ⟨kept, w₂, [], checks, .confirmed hbelow hsame.1 hsame.2.symm,
        .nothing (.inr ⟨hsame.1, hsame.2.symm⟩), rfl, h⟩
    · rename_i hsame
      have hopen : (key, anchor.file) ∈ w₂.sightings.confirmed →
          reconciler.effective anchor.file ≠ anchor.file := by
        intro hmem hname
        exact hsame (by simp [hmem, hname])
      split at h
      · rename_i hkept
        have hkept : reconciler.effective anchor.file ∈ kept := by simpa using hkept
        rw [yields_bind] at h
        obtain ⟨check, w₃, hstep, h⟩ := h
        obtain ⟨others, w₄, hrest, h⟩ := yields_bind.1 h
        obtain ⟨rfl, rfl⟩ := yields_pure.1 h
        obtain rfl := answer_of_supersede hstep
        exact ⟨kept, w₃, [_], others, .superseded hbelow hopen hkept hstep,
          .superseded hopen hkept, rfl, hrest⟩
      · rename_i hkept
        have hkept : reconciler.effective anchor.file ∉ kept := by simpa using hkept
        rw [yields_bind] at h
        obtain ⟨check, w₃, hstep, h⟩ := h
        obtain ⟨others, w₄, hrest, h⟩ := yields_bind.1 h
        obtain ⟨rfl, rfl⟩ := yields_pure.1 h
        exact ⟨_, w₃, [check], others, .rechecked hbelow hopen hkept hstep,
          .rechecked hopen hkept (yields_recheck hstep).1, rfl, hrest⟩

theorem yields_reconcileAnchors_cons {reconciler : Reconciler} {key : Text} {roots : List Location}
    {kept : List Text} {anchor : Anchor} {rest : List Anchor} {checks : List AnchorVerdict}
    {w w'' : Workspace}
    (h : (reconciler.reconcileAnchors key roots kept (anchor :: rest)).Yields w checks w'') :
    ∃ kept' w' others, Step reconciler key roots kept anchor w kept' w' ∧
      (reconciler.reconcileAnchors key roots kept' rest).Yields w' others w'' := by
  obtain ⟨kept', w', _, others, hstep, -, -, hrest⟩ := told_of_reconcileAnchors h
  exact ⟨kept', w', others, hstep, hrest⟩

theorem keys_of_reconcileAnchors {reconciler : Reconciler} {key : Text} {roots : List Location}
    {kept : List Text} {todo : List Anchor} {checks : List AnchorVerdict} {w w' : Workspace}
    (h : (reconciler.reconcileAnchors key roots kept todo).Yields w checks w') :
    ∀ check ∈ checks, check.key = key := by
  induction todo generalizing kept checks w with
  | nil =>
    obtain ⟨rfl, -⟩ := yields_pure.1 h
    simp
  | cons anchor rest ih =>
    obtain ⟨kept', w₁, told, others, -, htold, rfl, hrest⟩ := told_of_reconcileAnchors h
    intro check hcheck
    rcases List.mem_append.1 hcheck with hcheck | hcheck
    · exact (htold.about check hcheck).1
    · exact ih hrest check hcheck

theorem touched_of_reconcileAnchors {reconciler : Reconciler} {key : Text} {roots : List Location}
    {kept : List Text} {todo : List Anchor} {checks : List AnchorVerdict} {w w' : Workspace}
    (h : (reconciler.reconcileAnchors key roots kept todo).Yields w checks w') :
    Tasks.Touched key w w' := by
  induction todo generalizing kept checks w with
  | nil =>
    obtain ⟨-, rfl⟩ := yields_pure.1 h
    exact .refl key w
  | cons anchor rest ih =>
    obtain ⟨kept', w₁, others, hstep, hrest⟩ := yields_reconcileAnchors_cons h
    exact hstep.touched.trans (ih hrest)

theorem yields_reconcileKey {reconciler : Reconciler} {key : Text} {roots : List Location}
    {checks : List AnchorVerdict} {w w' : Workspace}
    (h : (reconciler.reconcileKey roots key).Yields w checks w') :
    ∃ as, w.anchors key = .ok as ∧
      (reconciler.reconcileAnchors key roots (w.sightings.filesOf key) as.reverse).Yields
        w checks w' := by
  rw [reconcileKey, yields_bind] at h
  obtain ⟨v, w₁, hget, h⟩ := h
  obtain ⟨rfl, rfl⟩ := yields_get.1 hget
  dsimp only at h
  obtain ⟨as, w₂, hanchors, h⟩ := yields_bind.1 h
  obtain ⟨has, rfl⟩ := Tasks.yields_anchors.1 hanchors
  exact ⟨as, has, h⟩

theorem touched_of_reconcileKey {reconciler : Reconciler} {key : Text} {roots : List Location}
    {checks : List AnchorVerdict} {w w' : Workspace}
    (h : (reconciler.reconcileKey roots key).Yields w checks w') : Tasks.Touched key w w' := by
  obtain ⟨as, -, hanchors⟩ := yields_reconcileKey h
  exact touched_of_reconcileAnchors hanchors

theorem onward_of_reconcile {reconciler : Reconciler} {roots : List Location}
    {checks : List AnchorVerdict} {w w' : Workspace}
    (h : (reconciler.reconcile roots).Yields w checks w') : w.Onward w' := by
  rw [reconcile, yields_bind] at h
  obtain ⟨keys, w₁, hanchored, h⟩ := h
  obtain ⟨-, rfl⟩ := Tasks.yields_anchored.1 hanchored
  obtain ⟨all, w₂, hall, h⟩ := yields_bind.1 h
  obtain ⟨-, rfl⟩ := yields_pure.1 h
  exact (Tasks.onward_of_mapM (fun _ _ _ _ => touched_of_reconcileKey) hall).1

theorem filesOf_congr {s s' : Sightings} (h : s'.confirmed = s.confirmed) (key : Text) :
    s'.filesOf key = s.filesOf key := by
  rw [Sightings.filesOf, Sightings.filesOf, h]

theorem mem_filesOf {s : Sightings} {key file : Text} :
    file ∈ s.filesOf key ↔ (key, file) ∈ s.confirmed := by
  rw [Sightings.filesOf, List.mem_filterMap]
  constructor
  · rintro ⟨⟨k, f⟩, hmem, hfile⟩
    dsimp only at hfile
    split at hfile
    · rename_i hkey
      cases hfile
      exact hkey ▸ hmem
    · cases hfile
  · intro hmem
    exact ⟨(key, file), hmem, by simp⟩

theorem keys_of_reconcileKeys {reconciler : Reconciler} {roots : List Location} {keys : List Text}
    {all : List (List AnchorVerdict)} {w w' : Workspace}
    (h : (keys.mapM (reconciler.reconcileKey roots)).Yields w all w') :
    ∀ check ∈ all.flatten, check.key ∈ keys := by
  induction keys generalizing all w with
  | nil =>
    obtain ⟨rfl, -⟩ := yields_pure.1 h
    simp
  | cons key keys ih =>
    obtain ⟨own, v, rest, hown, hrest, rfl⟩ := yields_mapM_cons.1 h
    obtain ⟨as, -, hanchors⟩ := yields_reconcileKey hown
    intro check hcheck
    rw [List.flatten_cons, List.mem_append] at hcheck
    rcases hcheck with hcheck | hcheck
    · rw [keys_of_reconcileAnchors hanchors check hcheck]
      exact List.mem_cons_self
    · exact List.mem_cons_of_mem _ (ih hrest check hcheck)

/-- The checks of a task are those that come from going through its own anchors. -/
theorem own_of_reconcileKeys {reconciler : Reconciler} {roots : List Location} {keys : List Text}
    {key : Text} {all : List (List AnchorVerdict)} {w w' : Workspace} (hnodup : keys.Nodup)
    (hmem : key ∈ keys) (h : (keys.mapM (reconciler.reconcileKey roots)).Yields w all w') :
    ∃ w₁ w₂ own, w.Onward w₁ ∧ w₁.anchors key = w.anchors key ∧
      (reconciler.reconcileKey roots key).Yields w₁ own w₂ ∧ w'.anchors key = w₂.anchors key ∧
      all.flatten.filter (·.key = key) = own := by
  obtain ⟨keys₁, keys₂, rfl⟩ := List.append_of_mem hmem
  obtain ⟨hnodup₁, hnodup₂, hapart⟩ := List.nodup_append.1 hnodup
  obtain ⟨hnot₂, -⟩ := List.nodup_cons.1 hnodup₂
  have hnot₁ : key ∉ keys₁ := fun hin => hapart key hin key List.mem_cons_self rfl
  obtain ⟨before, v, rest, hbefore, hrest, rfl⟩ := yields_mapM_append.1 h
  obtain ⟨own, v', after, hown, hafter, rfl⟩ := yields_mapM_cons.1 hrest
  obtain ⟨honward, hsame⟩ :=
    Tasks.onward_of_mapM (fun _ _ _ _ => touched_of_reconcileKey) hbefore
  have hothers : ∀ {ks : List Text} {checks : List (List AnchorVerdict)} {u u' : Workspace},
      key ∉ ks → (ks.mapM (reconciler.reconcileKey roots)).Yields u checks u' →
      checks.flatten.filter (·.key = key) = [] := by
    intro ks checks u u' hnot hrun
    rw [List.filter_eq_nil_iff]
    intro check hcheck hkey
    exact hnot (of_decide_eq_true hkey ▸ keys_of_reconcileKeys hrun check hcheck)
  obtain ⟨as, -, hanchors⟩ := yields_reconcileKey hown
  refine ⟨v, v', own, honward, hsame key hnot₁, hown,
    (Tasks.onward_of_mapM (fun _ _ _ _ => touched_of_reconcileKey) hafter).2 key hnot₂, ?_⟩
  rw [List.flatten_append, List.flatten_cons, List.filter_append, List.filter_append,
    hothers hnot₁ hbefore, hothers hnot₂ hafter, List.nil_append, List.append_nil,
    List.filter_eq_self]
  exact fun check hcheck => decide_eq_true (keys_of_reconcileAnchors hanchors check hcheck)

/-- Reconciling goes through the anchors of each task once, which gives the checks of the task;
what it does before and after that leaves the anchors of the task alone. -/
theorem own_of_reconcile {reconciler : Reconciler} {roots : List Location} {key : Text}
    {checks : List AnchorVerdict} {w w' : Workspace} {as : List Anchor}
    (has : w.anchors key = .ok as)
    (h : (reconciler.reconcile roots).Yields w checks w') :
    ∃ w₁ w₂, w.Onward w₁ ∧ w₁.anchors key = .ok as ∧
      (reconciler.reconcileAnchors key roots (w.sightings.filesOf key) as.reverse).Yields
        w₁ (checks.filter (·.key = key)) w₂ ∧ w'.anchors key = w₂.anchors key := by
  rw [reconcile, yields_bind] at h
  obtain ⟨keys, w₁, hanchored, h⟩ := h
  obtain ⟨hkeys, rfl⟩ := Tasks.yields_anchored.1 hanchored
  obtain ⟨all, w₂, hall, h⟩ := yields_bind.1 h
  obtain ⟨rfl, rfl⟩ := yields_pure.1 h
  obtain ⟨hnodup, hlisted⟩ := Document.anchoredKeys_eq_ok hkeys
  by_cases hmem : key ∈ keys
  · obtain ⟨v, v', own, honward, hv, hown, hv', rfl⟩ := own_of_reconcileKeys hnodup hmem hall
    obtain ⟨bs, hbs, hanchors⟩ := yields_reconcileKey hown
    rw [hv, has] at hbs
    cases hbs
    rw [filesOf_congr honward.confirmed] at hanchors
    exact ⟨v, v', honward, hv.trans has, hanchors, hv'⟩
  · obtain ⟨honward, hsame⟩ :=
      Tasks.onward_of_mapM (fun _ _ _ _ => touched_of_reconcileKey) hall
    have hnone : as = [] := by
      by_cases hne : as = []
      · exact hne
      · exact absurd (hlisted key as has hne) hmem
    subst hnone
    have hsilent : all.flatten.filter (·.key = key) = [] := by
      rw [List.filter_eq_nil_iff]
      exact fun check hcheck hkey =>
        hmem (of_decide_eq_true hkey ▸ keys_of_reconcileKeys hall check hcheck)
    exact ⟨w₂, w₂, honward, (hsame key hmem).trans has, yields_pure.2 ⟨hsilent.symm, rfl⟩, rfl⟩

theorem exists_of_reconcile {reconciler : Reconciler} {roots : List Location} {key : Text}
    {checks : List AnchorVerdict} {w w' : Workspace} {as : List Anchor}
    (has : w.anchors key = .ok as)
    (h : (reconciler.reconcile roots).Yields w checks w') :
    ∃ w₁ w₂ own, w.Onward w₁ ∧ w₁.anchors key = .ok as ∧
      (reconciler.reconcileAnchors key roots (w.sightings.filesOf key) as.reverse).Yields
        w₁ own w₂ ∧ w'.anchors key = w₂.anchors key := by
  obtain ⟨w₁, w₂, honward, h₁, hown, h₂⟩ := own_of_reconcile has h
  exact ⟨w₁, w₂, _, honward, h₁, hown, h₂⟩

end Reconciler

end TodoTracker
