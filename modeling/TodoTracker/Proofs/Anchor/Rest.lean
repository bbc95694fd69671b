import TodoTracker.Proofs.Anchor.Reported
import TodoTracker.Proofs.Anchor.Single

/-!
# Anchors at rest

A check of an anchor at the place where an earlier check has settled it leaves it there. One pass
over the anchors of a task leaves at most one for each file that it looks at, and that one at rest.
So a second pass over unchanged files finds nothing to do.
-/

set_option autoImplicit false

namespace TodoTracker

/-- A check that asks for nothing. -/
structure AnchorVerdict.Quiet (check : AnchorVerdict) : Prop where
  state : check.state = .confirmed ∨ check.state = .missing ∨ check.state = .unreadable
  still : check.moved = false
  kept : check.pruned = false

namespace Reconciler

open Work

variable {reconciler : Reconciler} {tree : FileTree} {key : Text} {roots : List Location}
  {kept : List Text} {anchor : Anchor} {check : AnchorVerdict} {todo as : List Anchor}
  {w w' : Workspace}

/-- A check leaves the anchor where it is, and asks for nothing. -/
def Rests (reconciler : Reconciler) (tree : FileTree) (key : Text) (anchor : Anchor) : Prop :=
  ∃ check, reconciler.inspect tree key anchor = .ok check ∧ check.settled = anchor ∧ check.Quiet

theorem Direct.newName_newName (hdirect : reconciler.Direct) (file : Text) :
    reconciler.newName? ((reconciler.newName? file).getD file) = none := by
  cases hname : reconciler.newName? file with
  | none => exact hname
  | some name =>
    have hlast := hdirect.final _ (Fields.mem_of_get? (get?_of_newName? hname))
    rw [Option.getD_some, newName?, hlast]

/-- In the lines of a file that was not renamed, a key is looked for where it was found. -/
theorem judge_quiet (hname : reconciler.newName? anchor.file = none) {lines : List Text}
    (hline : (reconciler.locate lines anchor.line key).getD anchor.line = anchor.line) :
    (reconciler.judge key anchor lines).settled = anchor ∧
      (reconciler.judge key anchor lines).Quiet := by
  have hsettled : (reconciler.judge key anchor lines).settled = anchor := by
    rw [judge_settled, hname, hline]
    rfl
  refine ⟨hsettled, ?_, ?_, ?_⟩
  · rw [judge, hname]
    cases hlocate : reconciler.locate lines anchor.line key with
    | none => exact .inr (.inl rfl)
    | some line =>
      rw [hlocate, Option.getD_some] at hline
      left
      simp [hline]
  · exact AnchorVerdict.moved_eq_false
      (hsettled.trans (judge_anchor reconciler key anchor lines).symm)
  · rw [judge]
    split <;> rfl

/-- Where a key was found it is found again. -/
theorem locate_locate (reconciler : Reconciler) (lines : List Text) (line : Int) (key : Text) :
    (reconciler.locate lines ((reconciler.locate lines line key).getD line) key).getD
      ((reconciler.locate lines line key).getD line) =
        (reconciler.locate lines line key).getD line := by
  cases hlocate : reconciler.locate lines line key with
  | none => rw [Option.getD_none, hlocate, Option.getD_none]
  | some found =>
    have hat := isAt_of_locate hlocate
    have hagain : reconciler.locate lines found key = some found :=
      (locate_of_isAt hat : reconciler.locate lines (Anchor.mk [] found).line key = _)
    rw [Option.getD_some, hagain, Option.getD_some]

/-- The verdict on an anchor whose file is not there. -/
def absent (reconciler : Reconciler) (key : Text) (anchor : Anchor) : AnchorVerdict where
  key := key
  anchor := anchor
  state := .missing
  place := (reconciler.newName? anchor.file).map fun _ =>
    ⟨(reconciler.newName? anchor.file).getD anchor.file, anchor.line⟩
  message := "file not found".toList

theorem inspect_of_absent (h : tree.existsAt
      (reconciler.path ((reconciler.newName? anchor.file).getD anchor.file)) = .ok false) :
    reconciler.inspect tree key anchor = .ok (reconciler.absent key anchor) := by
  rw [inspect]
  dsimp only
  rw [h]
  rfl

theorem absent_settled (reconciler : Reconciler) (key : Text) (anchor : Anchor) :
    (reconciler.absent key anchor).settled =
      ⟨(reconciler.newName? anchor.file).getD anchor.file, anchor.line⟩ := by
  rw [AnchorVerdict.settled, absent]
  cases reconciler.newName? anchor.file <;> rfl

theorem absent_quiet (hname : reconciler.newName? anchor.file = none) :
    (reconciler.absent key anchor).settled = anchor ∧ (reconciler.absent key anchor).Quiet := by
  have hsettled : (reconciler.absent key anchor).settled = anchor := by
    rw [absent_settled, hname]
    rfl
  exact ⟨hsettled, .inr (.inl rfl), AnchorVerdict.moved_eq_false hsettled, rfl⟩

/-- A check finds the file missing, or reads it, or cannot. -/
theorem inspect_cases (h : reconciler.inspect tree key anchor = .ok check) :
    (tree.existsAt (reconciler.path ((reconciler.newName? anchor.file).getD anchor.file)) =
        .ok false ∧ check = reconciler.absent key anchor) ∨
      (∃ text, tree.readText (reconciler.path
          ((reconciler.newName? anchor.file).getD anchor.file)) = .ok text ∧
        check = reconciler.judge key anchor text.contents) ∨
      check.settled = anchor ∧ check.state = .unreadable ∧ check.pruned = false := by
  obtain ⟨found, hexists, h⟩ := bind_eq_ok h
  split at h
  · rename_i hmissing
    cases h
    have habsent : found = false := by simpa using hmissing
    exact .inl ⟨habsent ▸ hexists, rfl⟩
  · split at h
    · rename_i text htext
      cases h
      exact .inr (.inl ⟨text, htext, rfl⟩)
    · split at h <;> cases h <;> exact .inr (.inr ⟨rfl, rfl, rfl⟩)

/-- A check settles an anchor where it is at rest. -/
theorem Direct.rests (hdirect : reconciler.Direct)
    (h : reconciler.inspect tree key anchor = .ok check) :
    reconciler.Rests tree key check.settled := by
  have hagain := hdirect.newName_newName anchor.file
  rcases inspect_cases h with ⟨hexists, rfl⟩ | ⟨text, htext, rfl⟩ | ⟨hsettled, hstate, hkept⟩
  · rw [absent_settled]
    refine ⟨_, inspect_of_absent ?_, absent_quiet hagain⟩
    rw [hagain]
    exact hexists
  · rw [judge_settled]
    exact ⟨_, inspect_of_readText hagain htext,
      judge_quiet hagain (locate_locate reconciler text.contents anchor.line key)⟩
  · rw [hsettled]
    have hanchor := (inspect_eq_ok h).1
    exact ⟨check, h, hsettled, .inr (.inr hstate),
      AnchorVerdict.moved_eq_false (hsettled.trans hanchor.symm), hkept⟩

/-- An anchor of which it can be told whether it is below the roots, in a file that saving the tasks
leaves alone. -/
structure Known (reconciler : Reconciler) (roots : List Location) (w : Workspace)
    (anchor : Anchor) : Prop where
  steady : reconciler.Steady w anchor.file
  below : ∃ b, reconciler.isBelow w.disk.tree roots anchor = .ok b

/-- The new names of files can be resolved. -/
def Resolves (reconciler : Reconciler) (tree : FileTree) : Prop :=
  ∀ rename ∈ reconciler.renames, ∃ location,
    tree.resolve (reconciler.path rename.2) = .ok location

theorem Known.settled (hdirect : reconciler.Direct) (hresolves : reconciler.Resolves w.disk.tree)
    (hknown : reconciler.Known roots w anchor)
    (h : reconciler.inspect w.disk.tree key anchor = .ok check) :
    reconciler.Known roots w check.settled := by
  rcases settled_of_inspect h with ⟨hstill, -⟩ | ⟨hfile, -⟩
  · rw [hstill]
    exact hknown
  · cases hname : reconciler.newName? anchor.file with
    | none =>
      rw [hname, Option.getD_none] at hfile
      refine ⟨hfile ▸ hknown.steady, ?_⟩
      rw [isBelow_eq _ _ _ hfile, ← isBelow_eq _ _ _ rfl]
      exact hknown.below
    | some name =>
      rw [hname, Option.getD_some] at hfile
      have hget := get?_of_newName? hname
      have hlast := hdirect.final _ (Fields.mem_of_get? hget)
      have heffective : reconciler.effective name = name := by
        rw [effective, hlast]
        rfl
      have hstill := hknown.steady.new
      rw [effective_of_get? hget] at hstill
      rw [← hfile] at hlast hstill heffective
      refine ⟨⟨hstill, heffective.symm ▸ hstill⟩, ?_⟩
      obtain ⟨location, hlocation⟩ := hresolves _ (Fields.mem_of_get? hget)
      dsimp only at hlocation
      rw [← hfile] at hlocation
      rw [isBelow, hlocation, hlast]
      by_cases hunder : roots.any location.within = true
      · exact ⟨true, by simp [bind, Except.bind, pure, Except.pure, hunder]⟩
      · exact ⟨false, by simp [bind, Except.bind, pure, Except.pure, hunder]⟩

/-- For every anchor that is gone through it can be told whether it is below the roots. -/
theorem isBelow_of_reconcileAnchors {checks : List AnchorVerdict}
    (h : (reconciler.reconcileAnchors key roots kept todo).Yields w checks w') :
    ∀ a ∈ todo, ∃ v b, w.Onward v ∧ reconciler.isBelow v.disk.tree roots a = .ok b := by
  induction todo generalizing kept checks w with
  | nil => simp
  | cons anchor rest ih =>
    obtain ⟨kept', w₁, others, hstep, hrest⟩ := yields_reconcileAnchors_cons h
    intro a ha
    rcases List.mem_cons.1 ha with rfl | ha
    · cases hstep with
      | outside hbelow => exact ⟨w, _, .refl w, hbelow⟩
      | confirmed hbelow => exact ⟨w, _, .refl w, hbelow⟩
      | superseded hbelow => exact ⟨w, _, .refl w, hbelow⟩
      | rechecked hbelow => exact ⟨w, _, .refl w, hbelow⟩
    · obtain ⟨v, b, hv, hbelow⟩ := ih hrest a ha
      exact ⟨v, b, hstep.touched.onward.trans hv, hbelow⟩

/-- What holds for the anchors of a task and wherever one is settled, holds for those it is left
with. -/
theorem all_of_reconcileAnchors {checks : List AnchorVerdict} {holds : Anchor → Prop}
    (hdirect : reconciler.Direct) (hdry : reconciler.dryRun = false)
    (h : (reconciler.reconcileAnchors key roots kept todo).Yields w checks w')
    (hwritten : ∀ a ∈ todo, a.IsWritten)
    (hsettled : ∀ a ∈ todo, ∀ v, w.Onward v → ∀ check,
      reconciler.inspect v.disk.tree key a = .ok check → holds check.settled)
    (has : w.anchors key = .ok as) (hall : ∀ a ∈ as, holds a) :
    ∃ as', w'.anchors key = .ok as' ∧ ∀ a ∈ as', holds a := by
  induction todo generalizing kept as checks w with
  | nil =>
    obtain ⟨-, rfl⟩ := yields_pure.1 h
    exact ⟨as, has, hall⟩
  | cons anchor rest ih =>
    obtain ⟨kept', w₁, others, hstep, hrest⟩ := yields_reconcileAnchors_cons h
    have hnext : ∃ as₁, w₁.anchors key = .ok as₁ ∧ ∀ a ∈ as₁, holds a := by
      cases hstep with
      | outside => exact ⟨as, has, hall⟩
      | confirmed => exact ⟨as, has, hall⟩
      | superseded _ _ _ h =>
        obtain ⟨as₀, has₀, hafter⟩ := (yields_supersede h).2 hdry
        rw [has] at has₀
        cases has₀
        exact ⟨_, hafter, fun a ha => hall a (List.mem_filter.1 ha).1⟩
      | rechecked _ _ _ h =>
        obtain ⟨hinspect, hafter⟩ := hdirect.yields_recheck hdry (hwritten anchor (by simp)) has h
        refine ⟨_, hafter, fun a ha => ?_⟩
        rcases mem_replaced ha with rfl | ⟨hold, -⟩
        · exact hsettled anchor (by simp) w (.refl w) _ hinspect
        · exact hall a hold
    obtain ⟨as₁, has₁, hall₁⟩ := hnext
    exact ih hrest (fun a ha => hwritten a (by simp [ha]))
      (fun a ha v hv => hsettled a (by simp [ha]) v (hstep.touched.onward.trans hv)) has₁ hall₁

/-- The anchors of a task at which a pass over them finds nothing to do. -/
structure Resting (reconciler : Reconciler) (tree : FileTree) (roots : List Location) (key : Text)
    (as : List Anchor) : Prop where
  below : ∀ a ∈ as, ∃ b, reconciler.isBelow tree roots a = .ok b
  rests : ∀ a ∈ as, reconciler.isBelow tree roots a = .ok true → reconciler.Rests tree key a
  apart : as.Pairwise fun a b => reconciler.isBelow tree roots a = .ok true →
    reconciler.isBelow tree roots b = .ok true →
    reconciler.effective a.file ≠ reconciler.effective b.file

theorem pairwise_of_count {counts : Anchor → Prop} {name : Anchor → Text}
    (h : ∀ a ∈ as, ∀ b ∈ as, counts a → counts b → name a = name b → a = b ∧ as.count a ≤ 1) :
    as.Pairwise fun a b => counts a → counts b → name a ≠ name b := by
  induction as with
  | nil => exact List.Pairwise.nil
  | cons c as ih =>
    refine List.pairwise_cons.2 ⟨?_, ih ?_⟩
    · intro b hb hccounts hbcounts hname
      obtain ⟨rfl, hcount⟩ := h c (by simp) b (by simp [hb]) hccounts hbcounts hname
      have hpos := List.count_pos_iff.2 hb
      rw [List.count_cons_self] at hcount
      omega
    · intro a ha b hb hacounts hbcounts hname
      obtain ⟨heq, hcount⟩ := h a (by simp [ha]) b (by simp [hb]) hacounts hbcounts hname
      exact ⟨heq, Nat.le_trans List.count_le_count_cons hcount⟩

/-- A pass over the anchors of its tasks with fresh notes leaves every task with anchors at which
another pass finds nothing to do. -/
theorem resting_of_reconcile {checks : List AnchorVerdict} (hdry : reconciler.dryRun = false)
    (hdirect : reconciler.Direct) (hfresh : w.sightings.confirmed = [])
    (hsteady : ∀ key as, w.anchors key = .ok as → ∀ a ∈ as, reconciler.Steady w a.file)
    (hresolves : reconciler.Resolves w.disk.tree)
    (hrun : (reconciler.reconcile roots).Yields w checks w') (key : Text) :
    ∃ as, w'.anchors key = .ok as ∧ reconciler.Resting w'.disk.tree roots key as := by
  obtain ⟨before, hbefore⟩ : ∃ before, w.anchors key = .ok before :=
    (legible_of_reconcile hrun).exists_anchors key
  obtain ⟨v₁, v₂, own, honward, h₁, hown, h₂⟩ := exists_of_reconcile hbefore hrun
  have hwritten : ∀ a ∈ before.reverse, a.IsWritten := fun a ha =>
    Document.isWritten_of_mem_anchors hbefore (List.mem_reverse.1 ha)
  have hstill : ∀ a ∈ before.reverse, reconciler.Steady w a.file := fun a ha =>
    hsteady key before hbefore a (List.mem_reverse.1 ha)
  have hinspect : ∀ a ∈ before.reverse, ∀ v, v₁.Onward v → ∀ check,
      reconciler.inspect v.disk.tree key a = .ok check →
      reconciler.inspect w.disk.tree key a = .ok check := by
    intro a ha v hv check h
    rwa [(hstill a ha).inspect (honward.trans hv).saved] at h
  -- the anchors that are left are known as the first ones are
  have hknown : ∀ a ∈ before, reconciler.Known roots w a := by
    intro a ha
    have hstill := hstill a (List.mem_reverse.2 ha)
    obtain ⟨v, b, hv, hbelow⟩ := isBelow_of_reconcileAnchors hown a (List.mem_reverse.2 ha)
    exact ⟨hstill, b, by rwa [hstill.isBelow (honward.trans hv).saved] at hbelow⟩
  obtain ⟨after, hafter, hall⟩ := all_of_reconcileAnchors hdirect hdry hown hwritten
    (fun a ha v hv check h => (hknown a (List.mem_reverse.1 ha)).settled hdirect hresolves
      (hinspect a ha v hv check h)) h₁ hknown
  -- of those that count for one file there is one, which is at rest
  have hsifted : ∀ name, ∃ s, (reconciler.Rests w.disk.tree key s ∨
      ∀ a ∈ after, ¬(reconciler.isBelow w.disk.tree roots a = .ok true ∧
        reconciler.effective a.file = name)) ∧
      ∀ a ∈ after, reconciler.isBelow w.disk.tree roots a = .ok true ∧
        reconciler.effective a.file = name → a = s ∧ after.count a ≤ 1 := by
    intro name
    have hfirst : Sifted name (fun a => reconciler.isBelow w.disk.tree roots a = .ok true ∧
        reconciler.effective a.file = name) (reconciler.Rests w.disk.tree key)
        (w.sightings.filesOf key) before.reverse before := by
      refine .inl ⟨by simp [Sightings.filesOf, hfresh], fun a _ => ?_⟩
      rw [List.count_reverse]
    obtain ⟨kept', after', hafter', hdone⟩ := sifted_of_reconcileAnchors hdirect hdry hown hwritten
      (fun a ha => ha.2)
      (fun a ha hcounts v hv => ⟨(hstill a ha).isBelow (honward.trans hv).saved ▸ hcounts.1,
        fun hmem => by
          rw [(honward.trans hv).confirmed, hfresh] at hmem
          cases hmem⟩)
      (fun a ha _ v hv check h => hdirect.rests (hinspect a ha v hv check h)) h₁ hfirst
    rw [hafter] at hafter'
    cases hafter'
    exact hdone.eq
  have hsaved := (onward_of_reconcile hrun).saved
  have hbelow : ∀ a ∈ after, reconciler.isBelow w'.disk.tree roots a =
      reconciler.isBelow w.disk.tree roots a := fun a ha => (hall a ha).steady.isBelow hsaved
  refine ⟨after, h₂.trans hafter, ?_, ?_, ?_⟩
  · intro a ha
    rw [hbelow a ha]
    exact (hall a ha).below
  · intro a ha hunder
    rw [hbelow a ha] at hunder
    obtain ⟨s, hs, hone⟩ := hsifted (reconciler.effective a.file)
    obtain ⟨rfl, -⟩ := hone a ha ⟨hunder, rfl⟩
    rcases hs with hrests | hnone
    · rw [Rests, (hall a ha).steady.inspect hsaved]
      exact hrests
    · exact absurd ⟨hunder, rfl⟩ (hnone a ha)
  · apply pairwise_of_count
    intro a ha b hb hacounts hbcounts hname
    rw [hbelow a ha] at hacounts
    rw [hbelow b hb] at hbcounts
    obtain ⟨s, -, hone⟩ := hsifted (reconciler.effective a.file)
    obtain ⟨rfl, hcount⟩ := hone a ha ⟨hacounts, rfl⟩
    obtain ⟨rfl, -⟩ := hone b hb ⟨hbcounts, hname.symm⟩
    exact ⟨rfl, hcount⟩

/-- Nothing was done but to note warnings. -/
structure Idle (w w' : Workspace) : Prop where
  disk : w'.disk = w.disk
  store : w'.store = w.store
  confirmed : w'.sightings.confirmed = w.sightings.confirmed

theorem Idle.refl (w : Workspace) : Idle w w := ⟨rfl, rfl, rfl⟩

theorem Idle.trans {w'' : Workspace} (h : Idle w w') (h' : Idle w' w'') : Idle w w'' :=
  ⟨h'.disk.trans h.disk, h'.store.trans h.store, h'.confirmed.trans h.confirmed⟩

/-- A check of an anchor at rest succeeds and does nothing. -/
theorem Rests.yields_recheck (h : reconciler.Rests w.disk.tree key anchor) :
    ∃ check w', (reconciler.recheck key anchor).Yields w check w' ∧ Idle w w' ∧ check.Quiet := by
  obtain ⟨check, hinspect, -, hquiet⟩ := h
  have hlook : (Work.look (reconciler.inspect · key anchor)).Yields w check w :=
    yields_look.2 ⟨hinspect, rfl⟩
  have hidle : ∃ w', Idle w w' ∧ (reconciler.recheck key anchor).Yields w check w' := by
    rw [recheck]
    simp only [yields_bind]
    by_cases hstate : check.state = .unreadable
    · refine ⟨{ w with sightings := { w.sightings with warnings := w.sightings.warnings ++
        ["Kept anchor ".toList ++ key ++ " -> ".toList ++ anchor.file ++ ": ".toList ++
          check.message] } }, ⟨rfl, rfl, rfl⟩, check, w, hlook, ?_⟩
      rw [hstate]
      exact yields_bind.2 ⟨(), _, yields_modify.2 rfl, yields_pure.2 ⟨rfl, rfl⟩⟩
    · refine ⟨w, .refl w, check, w, hlook, ?_⟩
      split
      · exact absurd ‹_› hstate
      · rw [if_neg (by rw [hquiet.still]; exact Bool.false_ne_true)]
        exact yields_pure.2 ⟨rfl, rfl⟩
      · exact yields_pure.2 ⟨rfl, rfl⟩
  obtain ⟨w', hidle, hyields⟩ := hidle
  exact ⟨check, w', hyields, hidle, hquiet⟩

/-- A pass over anchors at rest succeeds and does nothing. -/
theorem Resting.yields_reconcileAnchors (h : reconciler.Resting w.disk.tree roots key todo)
    (hfresh : w.sightings.confirmed = [])
    (hkept : ∀ a ∈ todo, reconciler.isBelow w.disk.tree roots a = .ok true →
      reconciler.effective a.file ∉ kept) :
    ∃ checks w', (reconciler.reconcileAnchors key roots kept todo).Yields w checks w' ∧
      Idle w w' ∧ ∀ check ∈ checks, check.Quiet := by
  induction todo generalizing kept w with
  | nil => exact ⟨[], w, yields_pure.2 ⟨rfl, rfl⟩, .refl w, by simp⟩
  | cons anchor rest ih =>
    obtain ⟨hhead, hapart⟩ := List.pairwise_cons.1 h.apart
    obtain ⟨b, hb⟩ := h.below anchor List.mem_cons_self
    have hlook : (Work.look (reconciler.isBelow · roots anchor)).Yields w b w :=
      yields_look.2 ⟨hb, rfl⟩
    have hrest : reconciler.Resting w.disk.tree roots key rest :=
      ⟨fun a ha => h.below a (by simp [ha]), fun a ha => h.rests a (by simp [ha]), hapart⟩
    cases b with
    | false =>
      obtain ⟨checks, w', hyields, hidle, hquiet⟩ :=
        ih hrest hfresh fun a ha => hkept a (by simp [ha])
      refine ⟨checks, w', ?_, hidle, hquiet⟩
      rw [reconcileAnchors, yields_bind]
      exact ⟨false, w, hlook, hyields⟩
    | true =>
      obtain ⟨check, w₁, hcheck, hidle, hquiet⟩ :=
        (h.rests anchor List.mem_cons_self hb).yields_recheck
      have hkept' : ∀ a ∈ rest, reconciler.isBelow w₁.disk.tree roots a = .ok true →
          reconciler.effective a.file ∉ reconciler.effective anchor.file :: kept := by
        intro a ha hunder
        rw [hidle.disk] at hunder
        rw [List.mem_cons, not_or]
        exact ⟨Ne.symm (hhead a ha hb hunder), hkept a (by simp [ha]) hunder⟩
      obtain ⟨checks, w', hyields, hidle', hquiet'⟩ :=
        ih (hidle.disk ▸ hrest) (hidle.confirmed.trans hfresh) hkept'
      refine ⟨check :: checks, w', ?_, hidle.trans hidle', by simpa using ⟨hquiet, hquiet'⟩⟩
      have hnew : reconciler.effective anchor.file ∉ kept := hkept anchor List.mem_cons_self hb
      rw [reconcileAnchors, yields_bind]
      refine ⟨true, w, hlook, ?_⟩
      rw [if_neg (by simp), yields_bind]
      refine ⟨w, w, yields_get.2 ⟨rfl, rfl⟩, ?_⟩
      rw [if_neg (by simp [hfresh]), if_neg (by simpa using hnew), yields_bind]
      exact ⟨check, w₁, hcheck, yields_bind.2 ⟨checks, w', hyields, yields_pure.2 ⟨rfl, rfl⟩⟩⟩

theorem Resting.reverse (h : reconciler.Resting tree roots key as) :
    reconciler.Resting tree roots key as.reverse := by
  refine ⟨fun a ha => h.below a (List.mem_reverse.1 ha),
    fun a ha => h.rests a (List.mem_reverse.1 ha), ?_⟩
  rw [List.pairwise_reverse]
  exact h.apart.imp fun hne ha hb => Ne.symm (hne hb ha)

theorem Resting.yields_reconcileKey (h : reconciler.Resting w.disk.tree roots key as)
    (has : w.anchors key = .ok as) (hfresh : w.sightings.confirmed = []) :
    ∃ checks w', (reconciler.reconcileKey roots key).Yields w checks w' ∧
      Idle w w' ∧ ∀ check ∈ checks, check.Quiet := by
  have hnone : w.sightings.filesOf key = [] := by simp [Sightings.filesOf, hfresh]
  have hkept : ∀ a ∈ as.reverse, reconciler.isBelow w.disk.tree roots a = .ok true →
      reconciler.effective a.file ∉ ([] : List Text) := fun _ _ _ => by simp
  obtain ⟨checks, w', hyields, hidle, hquiet⟩ :=
    h.reverse.yields_reconcileAnchors hfresh hkept
  refine ⟨checks, w', ?_, hidle, hquiet⟩
  rw [reconcileKey, yields_bind]
  refine ⟨w, w, yields_get.2 ⟨rfl, rfl⟩, ?_⟩
  dsimp only
  rw [hnone, yields_bind]
  exact ⟨as, w, Tasks.yields_anchors.2 ⟨has, rfl⟩, hyields⟩

theorem yields_reconcileKeys_of_resting {keys : List Text} (hfresh : w.sightings.confirmed = [])
    (hall : ∀ key ∈ keys, ∃ as, w.anchors key = .ok as ∧
      reconciler.Resting w.disk.tree roots key as) :
    ∃ checks w', (keys.mapM (reconciler.reconcileKey roots)).Yields w checks w' ∧
      Idle w w' ∧ ∀ own ∈ checks, ∀ check ∈ own, check.Quiet := by
  induction keys generalizing w with
  | nil => exact ⟨[], w, yields_pure.2 ⟨rfl, rfl⟩, .refl w, by simp⟩
  | cons key keys ih =>
    obtain ⟨as, has, hresting⟩ := hall key List.mem_cons_self
    obtain ⟨own, w₁, hown, hidle, hquiet⟩ := hresting.yields_reconcileKey has hfresh
    obtain ⟨checks, w', hrest, hidle', hquiet'⟩ := ih (hidle.confirmed.trans hfresh) (by
      intro other hother
      rw [Workspace.anchors, hidle.store, hidle.disk]
      exact hall other (List.mem_cons_of_mem _ hother))
    exact ⟨own :: checks, w', yields_mapM_cons.2 ⟨own, w₁, checks, hown, hrest, rfl⟩,
      hidle.trans hidle', by simpa using ⟨hquiet, hquiet'⟩⟩

/-- When anchors were reconciled with fresh notes and the files are the same, reconciling them once
more with fresh notes changes nothing: every check says that an anchor is confirmed, missing or
unreadable, and moves or drops none. -/
theorem reconcile_again_quiet {checks : List AnchorVerdict} (hdry : reconciler.dryRun = false)
    (hdirect : reconciler.Direct) (hfresh : w.sightings.confirmed = [])
    (hsteady : ∀ key as, w.anchors key = .ok as → ∀ a ∈ as, reconciler.Steady w a.file)
    (hresolves : reconciler.Resolves w.disk.tree)
    (hrun : (reconciler.reconcile roots).Yields w checks w') :
    ∃ again w'', (reconciler.reconcile roots).Yields { w' with sightings := {} } again w'' ∧
      w''.store = w'.store ∧ w''.disk = w'.disk ∧ ∀ check ∈ again, check.Quiet := by
  obtain ⟨keys, hkeys⟩ := Document.legible_iff.1
    ((onward_of_reconcile hrun).saved.legible (legible_of_reconcile hrun))
  have hrested : ∀ key ∈ keys, ∃ as, { w' with sightings := {} }.anchors key = .ok as ∧
      reconciler.Resting w'.disk.tree roots key as :=
    fun key _ => resting_of_reconcile hdry hdirect hfresh hsteady hresolves hrun key
  obtain ⟨again, w'', hyields, hidle, hquiet⟩ := yields_reconcileKeys_of_resting rfl hrested
  refine ⟨again.flatten, w'', ?_, hidle.store, hidle.disk, ?_⟩
  · rw [reconcile, yields_bind]
    refine ⟨keys, _, Tasks.yields_anchored.2 ⟨hkeys, rfl⟩, ?_⟩
    exact yields_bind.2 ⟨again, w'', hyields, yields_pure.2 ⟨rfl, rfl⟩⟩
  · intro check hcheck
    obtain ⟨own, hown, hmem⟩ := List.mem_flatten.1 hcheck
    exact hquiet own hown check hmem

/-- After the anchors of a renamed file were reconciled, doing it again finds nothing to do. -/
theorem reconcile_again_quiet_renamed :
    ∃ again w'', (renamingReconciler.reconcile [["repo".toList]]).Yields
        { ((renamingReconciler.reconcile [["repo".toList]]).run doubledWorkspace).2 with
          sightings := {} } again w'' ∧
      w''.store = ((renamingReconciler.reconcile [["repo".toList]]).run doubledWorkspace).2.store ∧
      w''.disk = ((renamingReconciler.reconcile [["repo".toList]]).run doubledWorkspace).2.disk ∧
      ∀ check ∈ again, check.Quiet := by
  obtain ⟨checks, hrun⟩ : ∃ checks, (renamingReconciler.reconcile [["repo".toList]]).Yields
      doubledWorkspace checks _ := exists_yields (by cbv)
  have hresolves : renamingReconciler.Resolves doubledWorkspace.disk.tree := by
    intro rename hrename
    rw [List.mem_singleton.1 hrename]
    exact ⟨["repo".toList, "b.py".toList], by cbv⟩
  exact reconcile_again_quiet rfl direct_renamingReconciler rfl
    (fun key as _ a _ => ⟨Workspace.undisturbed_inMemory _ _ _,
      Workspace.undisturbed_inMemory _ _ _⟩) hresolves hrun

end Reconciler

end TodoTracker
