import TodoTracker.Proofs.Anchor.Sifted

/-!
# What the checks of anchors depend on

Without renames, the checks of a task's anchors follow from the anchors in files that were not
confirmed, the newest first, and from what is found at these files. So two workspaces give the same
checks, and the same anchors afterwards, when they differ only in the order of anchors in confirmed
files, and in files that no anchor is checked in.
-/

set_option autoImplicit false

namespace TodoTracker

namespace Reconciler

open Work

variable {reconciler : Reconciler} {key : Text} {roots : List Location} {kept kept' : List Text}
  {anchor : Anchor} {todo as as' : List Anchor} {check : AnchorVerdict}
  {checks checks' : List AnchorVerdict} {u v w v' w' : Workspace}

/-- Whether an anchor is in a file in which its key was not confirmed. -/
def unconfirmed (w : Workspace) (key : Text) (anchor : Anchor) : Bool :=
  !w.sightings.confirmed.contains (key, anchor.file)

theorem unconfirmed_iff : unconfirmed w key anchor = true ↔
    (key, anchor.file) ∉ w.sightings.confirmed := by
  simp [unconfirmed]

/-- Whether an anchor is below the roots. -/
def below (reconciler : Reconciler) (roots : List Location) (w : Workspace) (anchor : Anchor) :
    Bool :=
  (reconciler.isBelow w.disk.tree roots anchor).toOption == some true

/-- The check of an anchor whose file has a newer one. -/
def superseded (key : Text) (anchor : Anchor) : AnchorVerdict where
  key := key
  anchor := anchor
  pruned := true
  state := .confirmed
  message := "superseded by anchor in ".toList ++ anchor.file

/-- The checks of anchors, the newest first, when the files in `kept` have theirs. -/
def verdicts (reconciler : Reconciler) (tree : FileTree) (key : Text) (kept : List Text) :
    List Anchor → List AnchorVerdict
  | [] => []
  | anchor :: rest =>
    if kept.contains anchor.file then
      superseded key anchor :: reconciler.verdicts tree key kept rest
    else match reconciler.inspect tree key anchor with
      | .ok check => check :: reconciler.verdicts tree key (anchor.file :: kept) rest
      | .error _ => []

theorem verdicts_congr {tree tree' : FileTree} (hkept : ∀ file, file ∈ kept ↔ file ∈ kept')
    (hsees : ∀ a ∈ todo, reconciler.inspect tree' key a = reconciler.inspect tree key a) :
    reconciler.verdicts tree key kept todo = reconciler.verdicts tree' key kept' todo := by
  induction todo generalizing kept kept' with
  | nil => rfl
  | cons anchor rest ih =>
    have hrest : ∀ a ∈ rest, reconciler.inspect tree' key a = reconciler.inspect tree key a :=
      fun a ha => hsees a (List.mem_cons_of_mem _ ha)
    rw [verdicts, verdicts, hsees anchor List.mem_cons_self]
    have hsame : kept'.contains anchor.file = kept.contains anchor.file := by
      rw [Bool.eq_iff_iff, List.contains_iff_mem, List.contains_iff_mem, hkept]
    by_cases hmem : kept.contains anchor.file = true
    · rw [if_pos hmem, if_pos (hsame.trans hmem), ih hkept hrest]
    · rw [if_neg hmem, if_neg (hsame ▸ hmem)]
      cases reconciler.inspect tree key anchor with
      | error e => rfl
      | ok check =>
        refine congrArg _ (ih (fun file => ?_) hrest)
        rw [List.mem_cons, List.mem_cons, hkept]

theorem check_of_supersede (h : (reconciler.supersede key anchor anchor.file).Yields w check w') :
    check = superseded key anchor ∧ (reconciler.dryRun = true → w'.store = w.store) := by
  rw [supersede] at h
  dsimp only at h
  rw [if_pos rfl] at h
  split at h
  · rename_i hwet
    obtain ⟨_, w₁, -, h⟩ := yields_bind.1 h
    obtain ⟨rfl, -⟩ := yields_pure.1 h
    exact ⟨rfl, fun hdry => absurd hdry (by simpa using hwet)⟩
  · obtain ⟨rfl, rfl⟩ := yields_pure.1 h
    exact ⟨rfl, fun _ => rfl⟩

theorem store_of_recheck (hdry : reconciler.dryRun = true)
    (h : (reconciler.recheck key anchor).Yields w check w') : w'.store = w.store := by
  rw [recheck, yields_bind] at h
  obtain ⟨found, w₁, hlook, h⟩ := h
  obtain ⟨-, rfl⟩ := yields_look.1 hlook
  dsimp only at h
  split at h
  · obtain ⟨_, w₂, hwarn, h⟩ := yields_bind.1 h
    obtain rfl := yields_modify.1 hwarn
    obtain ⟨-, rfl⟩ := yields_pure.1 h
    rfl
  · split at h
    · obtain ⟨_, w₂, hmove, h⟩ := yields_bind.1 h
      obtain ⟨-, rfl⟩ := yields_pure.1 h
      rw [move, if_pos hdry] at hmove
      rw [(yields_pure.1 hmove).2]
    · rw [(yields_pure.1 h).2]
  · rw [(yields_pure.1 h).2]

section NoRenames

variable (hrenames : reconciler.renames = [])

include hrenames

/-- An anchor is passed by or checked; then it is the turn of the others. -/
theorem turn_of_reconcileAnchors
    (h : (reconciler.reconcileAnchors key roots kept (anchor :: todo)).Yields w checks w') :
    (unconfirmed w key anchor && reconciler.below roots w anchor) = false ∧
        (reconciler.reconcileAnchors key roots kept todo).Yields w checks w' ∨
      (unconfirmed w key anchor && reconciler.below roots w anchor) = true ∧
        ∃ check others u kept', checks = check :: others ∧ Tasks.Touched key w u ∧
          (reconciler.dryRun = true → u.store = w.store) ∧
          (reconciler.reconcileAnchors key roots kept' todo).Yields u others w' ∧
          (anchor.file ∈ kept ∧ kept' = kept ∧ check = superseded key anchor ∨
            anchor.file ∉ kept ∧ kept' = anchor.file :: kept ∧
              (reconciler.recheck key anchor).Yields w check u) := by
  rw [reconcileAnchors, yields_bind] at h
  obtain ⟨isbelow, w₁, hlook, h⟩ := h
  obtain ⟨hbelow, rfl⟩ := yields_look.1 hlook
  rw [effective_of_no_renames hrenames] at h
  rw [below, hbelow]
  split at h
  · rename_i hout
    have hfalse : isbelow = false := by simpa using hout
    rw [hfalse]
    exact .inl ⟨Bool.and_false _, h⟩
  · rename_i hout
    have htrue : isbelow = true := by simpa using hout
    rw [htrue]
    rw [yields_bind] at h
    obtain ⟨v, w₂, hget, h⟩ := h
    obtain ⟨rfl, rfl⟩ := yields_get.1 hget
    split at h
    · rename_i hsame
      rw [beq_self_eq_true, Bool.and_true] at hsame
      refine .inl ⟨?_, h⟩
      rw [unconfirmed, hsame]
      rfl
    · rename_i hsame
      have hopen : unconfirmed w₂ key anchor = true := by
        simpa [unconfirmed] using hsame
      refine .inr ⟨by rw [hopen]; rfl, ?_⟩
      split at h
      · rename_i hkept
        rw [yields_bind] at h
        obtain ⟨check, w₃, hstep, h⟩ := h
        obtain ⟨others, w₄, hrest, h⟩ := yields_bind.1 h
        obtain ⟨rfl, rfl⟩ := yields_pure.1 h
        obtain ⟨rfl, hdry⟩ := check_of_supersede hstep
        exact ⟨_, others, w₃, kept, rfl, (yields_supersede hstep).1, hdry, hrest,
          .inl ⟨by simpa using hkept, rfl, rfl⟩⟩
      · rename_i hkept
        rw [yields_bind] at h
        obtain ⟨check, w₃, hstep, h⟩ := h
        obtain ⟨others, w₄, hrest, h⟩ := yields_bind.1 h
        obtain ⟨rfl, rfl⟩ := yields_pure.1 h
        exact ⟨check, others, w₃, _, rfl, (yields_recheck hstep).2.1,
          fun hdry => store_of_recheck hdry hstep, hrest, .inr ⟨by simpa using hkept, rfl, hstep⟩⟩

theorem below_congr (h : w.disk.tree.AgreeAt v.disk.tree (reconciler.path anchor.file)) :
    reconciler.below roots v anchor = reconciler.below roots w anchor := by
  rw [below, below, isBelow_congr roots h (by rw [hrenames]; simp [Fields.get?])]

theorem inspect_of_agree {tree tree' : FileTree}
    (h : tree.AgreeAt tree' (reconciler.path anchor.file)) :
    reconciler.inspect tree' key anchor = reconciler.inspect tree key anchor := by
  refine inspect_congr key ?_
  rw [newName?_of_no_renames hrenames]
  exact h

/-- The checks of a task's anchors are those of the anchors that are looked at. -/
theorem checks_of_reconcileAnchors
    (h : (reconciler.reconcileAnchors key roots kept todo).Yields w checks w')
    (hstill : ∀ a ∈ todo, unconfirmed w key a = true → w.Undisturbed (reconciler.path a.file)) :
    checks = reconciler.verdicts w.disk.tree key kept
        (todo.filter fun a => unconfirmed w key a && reconciler.below roots w a) ∧
      (reconciler.dryRun = true → w'.store = w.store) := by
  induction todo generalizing kept checks w with
  | nil =>
    obtain ⟨rfl, rfl⟩ := yields_pure.1 h
    exact ⟨rfl, fun _ => rfl⟩
  | cons anchor todo ih =>
    have hrest : ∀ a ∈ todo, unconfirmed w key a = true → w.Undisturbed (reconciler.path a.file) :=
      fun a ha => hstill a (List.mem_cons_of_mem _ ha)
    rcases turn_of_reconcileAnchors hrenames h with
      ⟨hpassed, h⟩ | ⟨hlooked, check, others, u, kept', rfl, htouched, hdry, h, hcheck⟩
    · rw [List.filter_cons_of_neg (by simp [hpassed])]
      exact ih h hrest
    · have hopen : ∀ a, unconfirmed u key a = unconfirmed w key a := fun a => by
        rw [unconfirmed, unconfirmed, htouched.onward.confirmed]
      have hagree : ∀ a ∈ todo, unconfirmed w key a = true →
          w.disk.tree.AgreeAt u.disk.tree (reconciler.path a.file) :=
        fun a ha hunconfirmed => htouched.onward.saved.agreeAt (hrest a ha hunconfirmed)
      obtain ⟨hothers, hstore⟩ := ih h fun a ha hunconfirmed =>
        htouched.onward.saved.undisturbed (hrest a ha (hopen a ▸ hunconfirmed))
      have hfilter : (todo.filter fun a => unconfirmed u key a && reconciler.below roots u a) =
          todo.filter fun a => unconfirmed w key a && reconciler.below roots w a := by
        refine List.filter_congr fun a ha => ?_
        rw [hopen]
        cases hunconfirmed : unconfirmed w key a with
        | false => rfl
        | true => rw [below_congr hrenames (hagree a ha hunconfirmed)]
      have hsame : others = reconciler.verdicts w.disk.tree key kept'
          (todo.filter fun a => unconfirmed w key a && reconciler.below roots w a) := by
        rw [hothers, hfilter]
        refine (verdicts_congr (fun _ => Iff.rfl) fun a ha => ?_).symm
        obtain ⟨hmem, hlooked⟩ := List.mem_filter.1 ha
        rw [Bool.and_eq_true] at hlooked
        exact inspect_of_agree hrenames (hagree a hmem hlooked.1)
      refine ⟨?_, fun h => (hstore h).trans (hdry h)⟩
      rw [List.filter_cons_of_pos (by simpa using hlooked), verdicts]
      rcases hcheck with ⟨hkept, rfl, rfl⟩ | ⟨hkept, rfl, hrecheck⟩
      · rw [if_pos (List.contains_iff_mem.2 hkept), hsame]
      · rw [if_neg (mt List.contains_iff_mem.1 hkept), (yields_recheck hrecheck).1, hsame]

/-- The checks of a task's anchors in a workspace. -/
def verdictsOf (reconciler : Reconciler) (roots : List Location) (w : Workspace) (key : Text) :
    List AnchorVerdict :=
  match w.anchors key with
  | .ok as => reconciler.verdicts w.disk.tree key (w.sightings.filesOf key)
      (as.reverse.filter fun a => unconfirmed w key a && reconciler.below roots w a)
  | .error _ => []

/-- Two workspaces that differ for a key in the order of its anchors in confirmed files at most. -/
structure Abreast (reconciler : Reconciler) (key : Text) (w v : Workspace) : Prop where
  confirmed : ∀ file, (key, file) ∈ v.sightings.confirmed ↔ (key, file) ∈ w.sightings.confirmed
  members : ∀ as as', w.anchors key = .ok as → v.anchors key = .ok as' → ∀ a, a ∈ as' ↔ a ∈ as
  others : ∀ as as', w.anchors key = .ok as → v.anchors key = .ok as' →
    as'.filter (unconfirmed w key) = as.filter (unconfirmed w key)
  sees : ∀ as, w.anchors key = .ok as → ∀ a ∈ as, unconfirmed w key a = true →
    w.disk.tree.AgreeAt v.disk.tree (reconciler.path a.file)

omit hrenames in
theorem Abreast.unconfirmed_eq (h : Abreast reconciler key w v) :
    unconfirmed v key = unconfirmed w key := by
  funext a
  rw [Bool.eq_iff_iff, unconfirmed_iff, unconfirmed_iff, h.confirmed]

omit hrenames in
theorem Abreast.of_touched {other : Text} (h : Tasks.Touched other w v) (hne : key ≠ other)
    (hstill : ∀ as, w.anchors key = .ok as → ∀ a ∈ as, unconfirmed w key a = true →
      w.Undisturbed (reconciler.path a.file)) : Abreast reconciler key w v := by
  have hsame : ∀ as as', w.anchors key = .ok as → v.anchors key = .ok as' → as' = as := by
    intro as as' has has'
    rw [h.others key hne, has] at has'
    exact (Except.ok.inj has').symm
  refine ⟨fun file => by rw [h.onward.confirmed], ?_, ?_, ?_⟩
  · intro as as' has has' a
    rw [hsame as as' has has']
  · intro as as' has has'
    rw [hsame as as' has has']
  · exact fun as has a ha hopen => h.onward.saved.agreeAt (hstill as has a ha hopen)

theorem Abreast.verdictsOf (h : Abreast reconciler key w v) (has : w.anchors key = .ok as)
    (has' : v.anchors key = .ok as') :
    reconciler.verdictsOf roots v key = reconciler.verdictsOf roots w key := by
  have hsplit : ∀ (u : Workspace) (bs : List Anchor),
      (bs.reverse.filter fun a => unconfirmed u key a && reconciler.below roots u a) =
        ((bs.filter (unconfirmed u key)).filter (reconciler.below roots u)).reverse := by
    intro u bs
    rw [List.filter_reverse, List.filter_filter]
    congr 1
    exact List.filter_congr fun a _ => Bool.and_comm _ _
  have hbelow : (as.filter (unconfirmed w key)).filter (reconciler.below roots v) =
      (as.filter (unconfirmed w key)).filter (reconciler.below roots w) := by
    refine List.filter_congr fun a ha => below_congr hrenames ?_
    obtain ⟨hmem, hopen⟩ := List.mem_filter.1 ha
    exact h.sees as has a hmem hopen
  rw [Reconciler.verdictsOf, Reconciler.verdictsOf, has, has']
  dsimp only
  rw [hsplit, hsplit, h.unconfirmed_eq, h.others as as' has has', hbelow]
  refine (verdicts_congr (fun file => ?_) fun a ha => inspect_of_agree hrenames ?_).symm
  · rw [mem_filesOf, mem_filesOf, h.confirmed]
  · obtain ⟨hmem, hopen⟩ := List.mem_filter.1 (List.mem_filter.1 (List.mem_reverse.1 ha)).1
    exact h.sees as has a hmem hopen

/-- Saving the tasks changes nothing where anchors are checked. -/
def StillFor (reconciler : Reconciler) (w : Workspace) (key : Text) : Prop :=
  ∀ as, w.anchors key = .ok as → ∀ a ∈ as, unconfirmed w key a = true →
    w.Undisturbed (reconciler.path a.file)

theorem checks_of_reconcileKeys {keys : List Text} {all : List (List AnchorVerdict)}
    (hnodup : keys.Nodup) (hstill : ∀ key ∈ keys, StillFor reconciler w key)
    (h : (keys.mapM (reconciler.reconcileKey roots)).Yields w all w') :
    all = keys.map (reconciler.verdictsOf roots w) ∧
      (reconciler.dryRun = true → w'.store = w.store) := by
  induction keys generalizing all w with
  | nil =>
    obtain ⟨rfl, rfl⟩ := yields_pure.1 h
    exact ⟨rfl, fun _ => rfl⟩
  | cons key keys ih =>
    obtain ⟨own, v, rest, hown, hrest, rfl⟩ := yields_mapM_cons.1 h
    obtain ⟨hnew, hnodup⟩ := List.nodup_cons.1 hnodup
    obtain ⟨as, has, hanchors⟩ := yields_reconcileKey hown
    have htouched := touched_of_reconcileAnchors hanchors
    obtain ⟨hchecks, hstore⟩ := checks_of_reconcileAnchors hrenames hanchors
      fun a ha => hstill key List.mem_cons_self as has a (List.mem_reverse.1 ha)
    have hfirst : own = reconciler.verdictsOf roots w key := by
      rw [verdictsOf, has]
      exact hchecks
    have hne : ∀ other ∈ keys, other ≠ key := by
      rintro other hother rfl
      exact hnew hother
    have habreast : ∀ other ∈ keys, Abreast reconciler other w v := fun other hother =>
      .of_touched htouched (hne other hother) (hstill other (List.mem_cons_of_mem _ hother))
    have hlater : ∀ other ∈ keys, StillFor reconciler v other := by
      intro other hother bs hbs b hb hopen
      rw [(habreast other hother).unconfirmed_eq] at hopen
      rw [htouched.others other (hne other hother)] at hbs
      exact htouched.onward.saved.undisturbed
        (hstill other (List.mem_cons_of_mem _ hother) bs hbs b hb hopen)
    obtain ⟨hall, hstore'⟩ := ih hnodup hlater hrest
    refine ⟨?_, fun hdry => (hstore' hdry).trans (hstore hdry)⟩
    rw [hfirst, hall, List.map_cons]
    congr 1
    refine List.map_congr_left fun other hother => ?_
    have hanchors := htouched.others other (hne other hother)
    cases hother' : w.anchors other with
    | error e => rw [verdictsOf, verdictsOf, hanchors, hother']
    | ok bs => exact (habreast other hother).verdictsOf hrenames hother' (hanchors.trans hother')

/-- The checks of all anchors follow from the workspace in which they are made. -/
theorem checks_of_reconcile (hstill : ∀ key, StillFor reconciler w key)
    (h : (reconciler.reconcile roots).Yields w checks w') :
    ∃ keys, w.store.document.anchoredKeys = .ok keys ∧
      checks = (keys.map (reconciler.verdictsOf roots w)).flatten ∧
      (reconciler.dryRun = true → w'.store = w.store) := by
  rw [reconcile, yields_bind] at h
  obtain ⟨keys, w₁, hanchored, h⟩ := h
  obtain ⟨hkeys, rfl⟩ := Tasks.yields_anchored.1 hanchored
  obtain ⟨all, w₂, hall, h⟩ := yields_bind.1 h
  obtain ⟨rfl, rfl⟩ := yields_pure.1 h
  obtain ⟨rfl, hstore⟩ := checks_of_reconcileKeys hrenames (Document.anchoredKeys_eq_ok hkeys).1
    (fun key _ => hstill key) hall
  exact ⟨keys, hkeys, rfl, hstore⟩

/-- The anchors that a check leaves in a file follow from those that it finds there. -/
theorem Abreast.members_of_reconcile {after after' : List Anchor}
    (habreast : Abreast reconciler key w v) (hwet : reconciler.dryRun = false)
    (hstill : StillFor reconciler w key) (hstill' : StillFor reconciler v key)
    (h : (reconciler.reconcile roots).Yields w checks w')
    (h' : (reconciler.reconcile roots).Yields v checks' v')
    (has : w.anchors key = .ok as) (has' : v.anchors key = .ok as')
    (hafter : w'.anchors key = .ok after) (hafter' : v'.anchors key = .ok after') (a : Anchor) :
    a ∈ after' ↔ a ∈ after := by
  obtain ⟨_, hends, hfiles⟩ := reconcile_in_files hrenames hwet h has
    fun b hb hopen => hstill as has b hb (unconfirmed_iff.2 hopen)
  rw [hafter] at hends
  cases hends
  obtain ⟨_, hends', hfiles'⟩ := reconcile_in_files hrenames hwet h' has'
    fun b hb hopen => hstill' as' has' b hb (unconfirmed_iff.2 hopen)
  rw [hafter'] at hends'
  cases hends'
  obtain ⟨hpassed, hlooked⟩ := hfiles a.file
  obtain ⟨hpassed', hlooked'⟩ := hfiles' a.file
  have hmine : ∀ b, b ∈ inFile a.file as' ↔ b ∈ inFile a.file as := fun b => by
    rw [mem_inFile, mem_inFile, habreast.members as as' has has']
  have hin : a ∈ after ↔ a ∈ inFile a.file after := by simp [mem_inFile]
  have hin' : a ∈ after' ↔ a ∈ inFile a.file after' := by simp [mem_inFile]
  rw [hin, hin']
  by_cases hconfirmed : (key, a.file) ∈ w.sightings.confirmed
  · rw [hpassed (.inl hconfirmed), hpassed' (.inl ((habreast.confirmed _).2 hconfirmed)), hmine]
  · have hconfirmed' := fun h => hconfirmed ((habreast.confirmed a.file).1 h)
    have hsame : inFile a.file as' = inFile a.file as := by
      have hopen : ∀ bs, inFile a.file bs = inFile a.file (bs.filter (unconfirmed w key)) := by
        intro bs
        rw [inFile_filter, eq_comm, List.filter_eq_self]
        intro b hb
        rw [unconfirmed_iff, (mem_inFile.1 hb).2]
        exact hconfirmed
      rw [hopen as', habreast.others as as' has has', ← hopen]
    cases hfirst : (inFile a.file as).getLast? with
    | none =>
      have hnone := List.getLast?_eq_none_iff.1 hfirst
      have hnothing : ∀ (u : Workspace) (bs cs : List Anchor), inFile a.file bs = [] →
          ((key, a.file) ∈ u.sightings.confirmed ∨
            reconciler.isBelow u.disk.tree roots ⟨a.file, 1⟩ ≠ .ok true →
              inFile a.file cs = inFile a.file bs) →
          ((key, a.file) ∉ u.sightings.confirmed →
            reconciler.isBelow u.disk.tree roots ⟨a.file, 1⟩ = .ok true →
              inFile a.file cs = reconciler.remaining u.disk.tree key (inFile a.file bs)) →
          inFile a.file cs = [] := by
        intro u bs cs hbs hpass hlook
        by_cases hcase : (key, a.file) ∈ u.sightings.confirmed ∨
            reconciler.isBelow u.disk.tree roots ⟨a.file, 1⟩ ≠ .ok true
        · rw [hpass hcase, hbs]
        · rw [not_or, not_not] at hcase
          rw [hlook hcase.1 hcase.2, hbs]
          rfl
      rw [hnothing w as after hnone hpassed hlooked,
        hnothing v as' after' (hsame.trans hnone) hpassed' hlooked']
    | some newest =>
      have hnewest := mem_inFile.1 (List.mem_of_getLast? hfirst)
      have hagree : w.disk.tree.AgreeAt v.disk.tree (reconciler.path a.file) :=
        hnewest.2 ▸ habreast.sees as has newest hnewest.1
          (unconfirmed_iff.2 (hnewest.2 ▸ hconfirmed))
      have hbelow : reconciler.isBelow v.disk.tree roots ⟨a.file, 1⟩ =
          reconciler.isBelow w.disk.tree roots ⟨a.file, 1⟩ :=
        isBelow_congr roots hagree (by rw [hrenames]; simp [Fields.get?])
      by_cases hout : reconciler.isBelow w.disk.tree roots ⟨a.file, 1⟩ = .ok true
      · rw [hlooked hconfirmed hout, hlooked' hconfirmed' (hbelow.trans hout), hsame, remaining,
          remaining, hfirst]
        dsimp only
        rw [settledAt_congr hrenames key (hnewest.2 ▸ hagree)]
      · rw [hpassed (.inr hout), hpassed' (.inr (hbelow ▸ hout)), hmine]

/-- Workspaces that are abreast for every key give the same checks, and have the same anchors
afterwards. -/
theorem reconcile_of_abreast (habreast : ∀ key, Abreast reconciler key w v)
    (hkeys : v.store.document.tasks.keys = w.store.document.tasks.keys)
    (hstill : ∀ key, StillFor reconciler w key) (hstill' : ∀ key, StillFor reconciler v key)
    (h : (reconciler.reconcile roots).Yields w checks w')
    (h' : (reconciler.reconcile roots).Yields v checks' v') :
    checks' = checks ∧ ∀ key after after', w'.anchors key = .ok after →
      v'.anchors key = .ok after' → ∀ a, a ∈ after' ↔ a ∈ after := by
  have hlegible := legible_of_reconcile h
  have hlegible' := legible_of_reconcile h'
  obtain ⟨keys, hanchored, hchecks, hstore⟩ := checks_of_reconcile hrenames hstill h
  obtain ⟨keys', hanchored', hchecks', hstore'⟩ := checks_of_reconcile hrenames hstill' h'
  have hlisted : keys' = keys := by
    rw [Document.anchoredKeys_eq hlegible] at hanchored
    rw [Document.anchoredKeys_eq hlegible', hkeys] at hanchored'
    rw [← Except.ok.inj hanchored, ← Except.ok.inj hanchored']
    congr 1
    refine List.filter_congr fun key _ => ?_
    obtain ⟨as, has⟩ := hlegible.exists_anchors key
    obtain ⟨as', has'⟩ := hlegible'.exists_anchors key
    have hnone : as' = [] ↔ as = [] := by
      rw [List.eq_nil_iff_forall_not_mem, List.eq_nil_iff_forall_not_mem]
      exact forall_congr' fun a => not_congr ((habreast key).members as as' has has' a)
    rw [has, has']
    simp [hnone]
  constructor
  · rw [hchecks, hchecks', hlisted]
    congr 1
    refine List.map_congr_left fun key _ => ?_
    obtain ⟨as, has⟩ := hlegible.exists_anchors key
    obtain ⟨as', has'⟩ := hlegible'.exists_anchors key
    exact (habreast key).verdictsOf hrenames has has'
  · intro key after after' hafter hafter' a
    cases hdry : reconciler.dryRun with
    | true =>
      rw [Workspace.anchors, hstore hdry] at hafter
      rw [Workspace.anchors, hstore' hdry] at hafter'
      exact (habreast key).members after after' hafter hafter' a
    | false =>
      obtain ⟨as, has⟩ := hlegible.exists_anchors key
      obtain ⟨as', has'⟩ := hlegible'.exists_anchors key
      exact (habreast key).members_of_reconcile hrenames hdry (hstill key) (hstill' key) h h' has
        has' hafter hafter' a

end NoRenames

end Reconciler

end TodoTracker
