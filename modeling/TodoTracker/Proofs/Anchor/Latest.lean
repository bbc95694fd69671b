import TodoTracker.Proofs.Anchor.Single

/-!
# The anchor that reanchoring keeps

Every confirmation notes the anchor as the latest of its key. No later confirmation of another key
and no reconciliation without renames takes that anchor away, so reanchoring finds it recorded and
drops the others. A task that was not confirmed keeps the anchor that was recorded last.
-/

set_option autoImplicit false

namespace TodoTracker

/-- The last of the sightings of a key. -/
def lastOf (found : List (Text × Anchor)) (key : Text) : Option Anchor :=
  ((found.filter fun s => s.1 = key).getLast?).map (·.2)

theorem lastOf_cons (other : Text) (anchor : Anchor) (found : List (Text × Anchor)) (key : Text) :
    lastOf ((other, anchor) :: found) key =
      (lastOf found key).or (if other = key then some anchor else none) := by
  rw [lastOf, lastOf]
  by_cases h : other = key
  · rw [List.filter_cons_of_pos (by simpa using h), List.getLast?_cons, if_pos h]
    cases (found.filter fun s => s.1 = key).getLast? <;> rfl
  · rw [List.filter_cons_of_neg (by simpa using h), if_neg h, Option.or_none]

namespace Reconciler

open Work

variable {reconciler : Reconciler} {key : Text} {last : Option Anchor} {roots : List Location}
  {w w' : Workspace}

theorem latest_of_confirm {other : Text} {anchor : Anchor} {answer : Confirmation}
    (hdry : reconciler.dryRun = false)
    (h : (reconciler.confirm other anchor).Yields w answer w') :
    w'.sightings.latest = w.sightings.latest.set other anchor := by
  obtain ⟨as, count, v, has, hprune, -, hrest⟩ := of_confirm h
  have hnoted : ({ w with sightings := w.sightings.add other anchor } : Workspace).anchors other =
      .ok as := has
  have hpruned := (yields_pruneFile hdry hnoted hprune).1.onward.latest
  rcases hrest with ⟨-, -, happend⟩ | ⟨-, rfl⟩
  · exact (Tasks.yields_append happend).1.onward.latest.trans hpruned
  · exact hpruned

/-- What was sighted last of a key is noted, and it is recorded if it is on a line of a file. -/
structure Latest (key : Text) (last : Option Anchor) (w : Workspace) : Prop where
  noted : Fields.get? w.sightings.latest key = last
  holds : ∀ anchor, last = some anchor → 1 ≤ anchor.line → Holds key anchor w

theorem Latest.confirm {other : Text} {anchor : Anchor} {answer : Confirmation}
    (hlatest : Latest key last w) (hdry : reconciler.dryRun = false)
    (hplain : Anchor.IsPlain anchor.file)
    (h : (reconciler.confirm other anchor).Yields w answer w') :
    Latest key (if other = key then some anchor else last) w' := by
  have hnoted := latest_of_confirm hdry h
  by_cases hkey : other = key
  · subst hkey
    rw [if_pos rfl]
    refine ⟨by rw [hnoted, Fields.get?_set_self], ?_⟩
    rintro _ ⟨⟩ hline
    exact holds_of_confirm hdry (Document.readBack_of_isWritten ⟨hplain.addressable, hline⟩) h
  · rw [if_neg hkey]
    have hne : key ≠ other := Ne.symm hkey
    refine ⟨by rw [hnoted, Fields.get?_set_of_ne _ _ hne, hlatest.noted], fun a ha hline => ?_⟩
    obtain ⟨⟨as, has, hmem⟩, hconfirmed⟩ := hlatest.holds a ha hline
    obtain ⟨-, hconfirmed', hothers, -⟩ := yields_confirm_recorded hdry h
    exact ⟨⟨as, (hothers key hne).trans has, hmem⟩,
      hconfirmed' ▸ mem_confirmed_add.2 (.inl hconfirmed)⟩

theorem Latest.confirmEach {found : List (Text × Anchor)} {u : Unit}
    (hlatest : Latest key last w) (hdry : reconciler.dryRun = false)
    (hplain : ∀ s ∈ found, Anchor.IsPlain s.2.file)
    (h : (reconciler.confirmEach found).Yields w u w') :
    Latest key ((lastOf found key).or last) w' := by
  induction found generalizing last w with
  | nil =>
    obtain ⟨-, rfl⟩ := yields_pure.1 h
    exact hlatest
  | cons s found ih =>
    obtain ⟨answer, w₁, hconfirm, hrest⟩ := yields_confirmEach_cons h
    have hrun := ih (hlatest.confirm hdry (hplain s List.mem_cons_self) hconfirm)
      (fun t ht => hplain t (List.mem_cons_of_mem s ht)) hrest
    have hlast : (lastOf (s :: found) key).or last =
        (lastOf found key).or (if s.1 = key then some s.2 else last) := by
      rw [lastOf_cons, Option.or_assoc]
      split <;> rfl
    rw [hlast]
    exact hrun

/-- Reconciling passes over the anchor of a file where the key was sighted. -/
theorem Latest.reconcile {checks : List AnchorVerdict} (hlatest : Latest key last w)
    (hdry : reconciler.dryRun = false) (hrenames : reconciler.renames = [])
    (h : (reconciler.reconcile roots).Yields w checks w') : Latest key last w' := by
  have honward := onward_of_reconcile h
  refine ⟨by rw [honward.latest, hlatest.noted], fun a ha hline => ?_⟩
  obtain ⟨⟨as, has, hmem⟩, hconfirmed⟩ := hlatest.holds a ha hline
  obtain ⟨v, v', own, hv, hvas, hown, hv'⟩ := exists_of_reconcile has h
  have hkept : ∃ as', v'.anchors key = .ok as' ∧ a ∈ as' := by
    refine mem_anchors_of_passed hdry (fun kept u kept' u' hu hstep => ?_) hown hvas hmem
    exact hstep.eq_of_confirmed hrenames (hu.confirmed ▸ hv.confirmed ▸ hconfirmed)
  exact ⟨hv' ▸ hkept, honward.confirmed ▸ hconfirmed⟩

/-- The notes of the last sighting decide which anchor of a task is kept. -/
theorem kept?_congr {s s' : Sightings} (h : s'.latest = s.latest) (key : Text) (as : List Anchor) :
    kept? s' key as = kept? s key as := by
  rw [kept?, kept?, h]

theorem mem_of_kept? {s : Sightings} {as : List Anchor} {keep : Anchor}
    (h : kept? s key as = some keep) : keep ∈ as := by
  rw [kept?] at h
  split at h
  · split at h
    · cases h
      rename_i hmem
      simpa using hmem
    · exact List.mem_of_getLast? h
  · exact List.mem_of_getLast? h

theorem exists_kept? (s : Sightings) (key : Text) {as : List Anchor} (h : as ≠ []) :
    ∃ keep, kept? s key as = some keep := by
  have hlast := List.getLast?_eq_some_getLast h
  rw [kept?]
  split
  · split
    · exact ⟨_, rfl⟩
    · exact ⟨_, hlast⟩
  · exact ⟨_, hlast⟩

/-- The anchor sighted last is kept where it is recorded, which takes a line number from one on;
else the anchor recorded last is. -/
theorem Latest.eq_of_kept? {as : List Anchor} {keep : Anchor} (hlatest : Latest key last w)
    (has : w.anchors key = .ok as) (h : kept? w.sightings key as = some keep) :
    (∀ anchor, last = some anchor → 1 ≤ anchor.line → keep = anchor) ∧
      ((∀ anchor, last = some anchor → anchor.line < 1) → as.getLast? = some keep) := by
  rw [kept?, hlatest.noted] at h
  constructor
  · rintro anchor rfl hline
    obtain ⟨⟨as', has', hmem⟩, -⟩ := hlatest.holds anchor rfl hline
    rw [has] at has'
    cases has'
    dsimp only at h
    rw [if_pos (by simpa using hmem)] at h
    exact (Option.some.inj h).symm
  · intro hlast
    cases last with
    | none => exact h
    | some anchor =>
      have habsent : anchor ∉ as := by
        intro hmem
        have := (Document.isWritten_of_mem_anchors has hmem).line_pos
        have := hlast anchor rfl
        omega
      dsimp only at h
      rwa [if_neg (by simpa using habsent)] at h

theorem yields_dropOthers {keep : Anchor} {todo as : List Anchor} {checks : List AnchorVerdict}
    (hdry : reconciler.dryRun = false) (has : w.anchors key = .ok as)
    (h : (reconciler.dropOthers key keep todo).Yields w checks w') :
    Tasks.Touched key w w' ∧
      w'.anchors key = .ok (as.filter fun a => ¬(a ∈ todo ∧ a ≠ keep)) := by
  induction todo generalizing as checks w with
  | nil =>
    obtain ⟨-, rfl⟩ := yields_pure.1 h
    rw [List.filter_eq_self.2 (by simp)]
    exact ⟨.refl key w, has⟩
  | cons anchor rest ih =>
    rw [dropOthers] at h
    split at h
    · rename_i hkeep
      obtain ⟨htouched, hafter⟩ := ih has h
      refine ⟨htouched, hafter.trans (congrArg _ (List.filter_congr fun a _ => ?_))⟩
      by_cases ha : a = keep <;> simp [ha, hkeep]
    · rename_i hdrop
      rw [hdry] at h
      dsimp only [Bool.not_false, if_true] at h
      obtain ⟨_, w₁, hremove, h⟩ := yields_bind.1 h
      obtain ⟨others, w₂, hrest, h⟩ := yields_bind.1 h
      obtain ⟨-, rfl⟩ := yields_pure.1 h
      obtain ⟨htouched, as₀, has₀, has₁⟩ := Tasks.yields_remove hremove
      rw [has] at has₀
      cases has₀
      obtain ⟨htouched', hafter⟩ := ih has₁ hrest
      refine ⟨htouched.trans htouched', hafter.trans ?_⟩
      rw [List.filter_filter]
      refine congrArg _ (List.filter_congr fun a _ => ?_)
      by_cases ha : a = anchor <;> simp [ha, hdrop]

/-- Reanchoring a task leaves those of its anchors that are the kept one. -/
theorem yields_reanchorTask {checks : List AnchorVerdict} (hdry : reconciler.dryRun = false)
    (h : (reconciler.reanchorTask key).Yields w checks w') :
    Tasks.Touched key w w' ∧ ∃ as, w.anchors key = .ok as ∧
      w'.anchors key = .ok (as.filter fun a => kept? w.sightings key as = some a) := by
  rw [reanchorTask, yields_bind] at h
  obtain ⟨as, w₁, hanchors, h⟩ := h
  obtain ⟨has, rfl⟩ := Tasks.yields_anchors.1 hanchors
  split at h
  · rename_i hfew
    obtain ⟨-, rfl⟩ := yields_pure.1 h
    refine ⟨.refl key w₁, as, has, ?_⟩
    rw [List.filter_eq_self.2]
    · exact has
    · intro a ha
      obtain ⟨keep, hkeep⟩ := exists_kept? w₁.sightings key (List.ne_nil_of_mem ha)
      obtain ⟨b, rfl⟩ := List.length_eq_one_iff.1
        (Nat.le_antisymm hfew (List.length_pos_of_mem ha))
      rw [List.mem_singleton.1 ha, hkeep, List.mem_singleton.1 (mem_of_kept? hkeep)]
      exact decide_eq_true rfl
  · rw [yields_bind] at h
    obtain ⟨v, w₂, hget, h⟩ := h
    obtain ⟨rfl, rfl⟩ := yields_get.1 hget
    split at h
    · rename_i hmany _ hnone
      have hne : as ≠ [] := by
        rintro rfl
        exact hmany (Nat.zero_le 1)
      obtain ⟨keep, hkeep⟩ := exists_kept? w₂.sightings key hne
      rw [hnone] at hkeep
      cases hkeep
    · rename_i keep hkeep
      obtain ⟨htouched, hafter⟩ := yields_dropOthers hdry has h
      refine ⟨htouched, as, has, hafter.trans (congrArg _ (List.filter_congr fun a ha => ?_))⟩
      simp [ha, hkeep, eq_comm]

theorem yields_reanchor {checks : List AnchorVerdict} (hdry : reconciler.dryRun = false)
    (h : reconciler.reanchor.Yields w checks w') (key : Text) :
    ∃ as, w.anchors key = .ok as ∧
      w'.anchors key = .ok (as.filter fun a => kept? w.sightings key as = some a) := by
  rw [reanchor, yields_bind] at h
  obtain ⟨keys, w₁, hanchored, h⟩ := h
  obtain ⟨hkeys, rfl⟩ := Tasks.yields_anchored.1 hanchored
  obtain ⟨all, w₂, hall, h⟩ := yields_bind.1 h
  obtain ⟨-, rfl⟩ := yields_pure.1 h
  obtain ⟨hnodup, hlisted⟩ := Document.anchoredKeys_eq_ok hkeys
  have htouched : ∀ key v own v', (reconciler.reanchorTask key).Yields v own v' →
      Tasks.Touched key v v' := fun key v own v' hown => (yields_reanchorTask hdry hown).1
  by_cases hmem : key ∈ keys
  · obtain ⟨v, v', own, honward, hv, hown, hv'⟩ := Tasks.own_of_mapM htouched hnodup hmem hall
    obtain ⟨-, as, has, hafter⟩ := yields_reanchorTask hdry hown
    refine ⟨as, hv ▸ has, ?_⟩
    rw [hv', hafter, kept?_congr honward.latest]
  · obtain ⟨as, has⟩ : ∃ as, w₁.anchors key = .ok as :=
      (Document.legible_iff.2 ⟨keys, hkeys⟩).exists_anchors key
    have hnone : as = [] := by
      by_contra hne
      exact hmem (hlisted key as has hne)
    subst hnone
    exact ⟨[], has, ((Tasks.onward_of_mapM htouched hall).2 key hmem).trans has⟩

/-- After any confirmations with fresh notes and a reconciliation without renames, reanchoring
leaves every task that has an anchor with exactly one: the one that was confirmed last, or the last
recorded one where the task was not confirmed. A confirmed line number below one is never recorded,
and counts as if the task was not confirmed. -/
theorem anchors_of_reanchor {found : List (Text × Anchor)} {checks pruned : List AnchorVerdict}
    {v : Workspace} (hdry : reconciler.dryRun = false) (hrenames : reconciler.renames = [])
    (hfresh : w.sightings.latest = []) (hplain : ∀ s ∈ found, Anchor.IsPlain s.2.file)
    (hrun : Yields (do
      reconciler.confirmEach found
      reconciler.reconcile roots) w checks v)
    (hreanchor : reconciler.reanchor.Yields v pruned w') (key : Text) :
    ∃ before after, v.anchors key = .ok before ∧ w'.anchors key = .ok after ∧
      (before = [] → after = []) ∧
      (before ≠ [] → ∃ keep, (∀ a, a ∈ after ↔ a = keep) ∧
        (∀ anchor, lastOf found key = some anchor → 1 ≤ anchor.line → keep = anchor) ∧
        ((∀ anchor, lastOf found key = some anchor → anchor.line < 1) →
          before.getLast? = some keep)) := by
  obtain ⟨_, u, heach, hreconcile⟩ := yields_bind.1 hrun
  have hstart : Latest key none w := ⟨by rw [hfresh]; rfl, nofun⟩
  have hlatest := (hstart.confirmEach hdry hplain heach).reconcile hdry hrenames hreconcile
  rw [Option.or_none] at hlatest
  obtain ⟨before, hbefore, hafter⟩ := yields_reanchor hdry hreanchor key
  refine ⟨before, _, hbefore, hafter, fun hnone => by rw [hnone]; rfl, fun hne => ?_⟩
  obtain ⟨keep, hkeep⟩ := exists_kept? v.sightings key hne
  refine ⟨keep, fun a => ?_, hlatest.eq_of_kept? hbefore hkeep⟩
  rw [List.mem_filter, hkeep]
  constructor
  · exact fun ha => (Option.some.inj (of_decide_eq_true ha.2)).symm
  · rintro rfl
    exact ⟨mem_of_kept? hkeep, decide_eq_true rfl⟩

/-- A task with an anchor in each of two files, both of which hold its key. -/
def scatteredWorkspace : Workspace := .inMemory
  ⟨[(["repo".toList], .directory),
    (["repo".toList, "a.py".toList], .file (Utf8.encode "# TODO(PROJ-1): fix\n".toList)),
    (["repo".toList, "b.py".toList], .file (Utf8.encode "x = 1\n# TODO(PROJ-1): fix\n".toList))],
    by decide⟩
  ⟨[("PROJ-1".toList, .object [(Document.referencesName, .list
    [Anchor.toReference ⟨"a.py".toList, 1⟩, Anchor.toReference ⟨"b.py".toList, 1⟩])])], by decide⟩

/-- The workspace after the sighting in the first file and a reconciliation, which moves the anchor
in the second one. -/
def reconciledWorkspace : Workspace :=
  ((do plainReconciler.confirmEach [("PROJ-1".toList, ⟨"a.py".toList, 1⟩)]
       plainReconciler.reconcile [["repo".toList]] : Work _).run scatteredWorkspace).2

/-- The anchor that was sighted stays, although the other one was recorded after it. -/
theorem anchors_of_reanchor_scattered :
    ∃ after, (plainReconciler.reanchor.run reconciledWorkspace).2.anchors "PROJ-1".toList =
      .ok after ∧ ∀ a, a ∈ after ↔ a = ⟨"a.py".toList, 1⟩ := by
  have hplain : Anchor.IsPlain "a.py".toList := ⟨by decide, by decide, by decide⟩
  obtain ⟨checks, hrun⟩ : ∃ checks, Yields (do
      plainReconciler.confirmEach [("PROJ-1".toList, ⟨"a.py".toList, 1⟩)]
      plainReconciler.reconcile [["repo".toList]]) scatteredWorkspace checks reconciledWorkspace :=
    exists_yields (by cbv)
  obtain ⟨pruned, hreanchor⟩ : ∃ pruned, plainReconciler.reanchor.Yields reconciledWorkspace pruned
      _ := exists_yields (by cbv)
  obtain ⟨before, after, hbefore, hafter, -, hkeep⟩ := anchors_of_reanchor rfl rfl rfl
    (fun s hs => by rw [List.mem_singleton.1 hs]; exact hplain) hrun hreanchor "PROJ-1".toList
  have hanchored : reconciledWorkspace.anchors "PROJ-1".toList =
      .ok [⟨"a.py".toList, 1⟩, ⟨"b.py".toList, 2⟩] := by cbv
  rw [hanchored] at hbefore
  cases hbefore
  obtain ⟨keep, hmem, hlast, -⟩ := hkeep (by simp)
  rw [hlast ⟨"a.py".toList, 1⟩ (by decide) (by decide)] at hmem
  exact ⟨after, hafter, hmem⟩

end Reconciler

end TodoTracker
