import TodoTracker.Proofs.Anchor.Verdicts
import TodoTracker.Proofs.List.Sorted
import TodoTracker.Proofs.Scan.InOrder
import TodoTracker.Proofs.Scan.Listing

/-!
# The order of files does not matter

Scanning the same files in another order, without creating tasks, reanchoring or renames, without a
failure and without being cancelled, gives the same report, the same texts of files and the same
anchors of tasks. Only the order in which the anchors of a task are recorded may be another.
-/

set_option autoImplicit false

namespace TodoTracker

open Work Reconciler

namespace Counts

theorem add_right_comm (a b c : Counts) : a + b + c = a + c + b := by
  change Counts.add (Counts.add a b) c = Counts.add (Counts.add a c) b
  simp only [Counts.add, Counts.mk.injEq]
  omega

end Counts

theorem ScanReport.eq_of_same {report report' : ScanReport}
    (hcounts : report'.counts = report.counts) (hcancelled : report'.cancelled = report.cancelled)
    (hdryRun : report'.dryRun = report.dryRun) (hitems : report'.items = report.items)
    (hchecks : report'.checks = report.checks) :
    report' = { report with warnings := report'.warnings } := by
  cases report
  cases report'
  cases hcounts
  cases hcancelled
  cases hdryRun
  cases hitems
  cases hchecks
  rfl

namespace ScanJob

variable {job : ScanJob} {files files' paths : List Path} {path : Path} {run last : ScanRun}
  {done done' : List (Path × Option FileScan)} {w v v' w' : Workspace}
  {report report' : ScanReport}

section Scans

theorem grow_of_inTurn (h : ∀ scan ∈ run.scans, Counts.Grow {} scan.counts) :
    ∀ scan ∈ (Walker.inTurn job.visit files run).scans, Counts.Grow {} scan.counts := by
  induction files generalizing run with
  | nil => exact h
  | cons path files ih =>
    have hcame := came job path run
    rw [Walker.inTurn]
    generalize job.visit path run = outcome at hcame ⊢
    cases hcame with
    | @cancelled go queries =>
      cases go with
      | false => exact h
      | true => exact ih h
    | passed => exact ih h
    | scanned _ hvisit =>
      refine ih fun scan hscan => ?_
      rcases List.mem_append.1 hscan with hold | hnew
      · exact h scan hold
      · rw [List.mem_singleton.1 hnew]
        exact grow_of_visitFile hvisit
    | failed => exact ih h

/-- The counts of files together. -/
def totalOf (scans : List FileScan) : Counts :=
  scans.foldl (fun total scan => total + scan.counts) {}

/-- The items of files together, in the order of reports. -/
def itemsOf (scans : List FileScan) : List ScanItem :=
  (scans.flatMap fun scan => scan.marks.map Mark.item).mergeSort ScanItem.order

theorem totalOf_append (scans scans' : List FileScan) :
    totalOf (scans ++ scans') =
      scans'.foldl (fun total scan => total + scan.counts) (totalOf scans) :=
  List.foldl_append

theorem grow_foldl {scans : List FileScan} (h : ∀ scan ∈ scans, Counts.Grow {} scan.counts)
    (total : Counts) :
    total.Grow (scans.foldl (fun (total : Counts) scan => total + scan.counts) total) := by
  induction scans generalizing total with
  | nil => exact .refl _
  | cons scan scans ih =>
    exact (Counts.Grow.add total (h scan List.mem_cons_self)).trans
      (ih (fun s hs => h s (List.mem_cons_of_mem _ hs)) _)

/-- What failed for one file counts for the whole scan. -/
theorem failed_of_mem {scans : List FileScan} (h : ∀ scan ∈ scans, Counts.Grow {} scan.counts)
    {scan : FileScan} (hmem : scan ∈ scans) (hfailed : scan.counts.Failed) :
    (totalOf scans).Failed := by
  obtain ⟨before, after, rfl⟩ := List.append_of_mem hmem
  have hbefore : Counts.Grow {} (totalOf before) :=
    grow_foldl (fun s hs => h s (List.mem_append_left _ hs)) {}
  have hlater : ∀ s ∈ after, Counts.Grow {} s.counts := fun s hs => h s (by simp [hs])
  have hafter := grow_foldl hlater (totalOf before + scan.counts)
  rw [totalOf_append, List.foldl_cons]
  refine Counts.Failed.grow (hfailed.imp (fun h => ?_) fun h => ?_) hafter
  · exact Int.lt_of_lt_of_le h (Int.le_add_of_nonneg_left hbefore.unresolved)
  · exact Int.lt_of_lt_of_le h (Int.le_add_of_nonneg_left hbefore.writeFailures)

/-- Without a failure and a cancellation, files scanned in turn are all scanned. -/
theorem not_over (hfailure : last.failure = none) (hcancelled : last.cancelled = false)
    (hgrow : ∀ scan ∈ last.scans, Counts.Grow {} scan.counts) (hsound : ¬last.total.Failed) :
    ¬last.Over := by
  rintro (h | h | ⟨scan, hscan, hfailed⟩)
  · exact h hfailure
  · rw [hcancelled] at h
    cases h
  · exact hsound (failed_of_mem hgrow hscan hfailed)

theorem totalOf_bare (scans : List FileScan) :
    totalOf (scans.map FileScan.bare) = totalOf scans :=
  List.foldl_map

theorem itemsOf_bare (scans : List FileScan) :
    itemsOf (scans.map FileScan.bare) = itemsOf scans := by
  rw [itemsOf, itemsOf, List.flatMap_map]
  rfl

end Scans

/-- A scan of files in an order that succeeds has scanned all of them and then checked the
anchors. -/
theorem exists_progress (hcreate : job.options.createTasks = false)
    (hreanchor : job.options.reanchor = false)
    (hdry : job.reconciler.dryRun = job.options.dryRun)
    (horderly : job.Orderly (job.opening w) files) (hpaths : ∀ path ∈ paths, path ∈ files)
    (hdistinct : paths.Pairwise fun path other => ∀ file,
      (job.opening w).disk.tree.displayPath path job.repo = .ok file →
        (job.opening w).disk.tree.displayPath other job.repo ≠ .ok file)
    (h : (job.runInOrder paths).Yields w report w') (hsound : ¬report.counts.Failed)
    (hgo : report.cancelled = false) :
    ∃ done v v', done.map Prod.fst = paths ∧
      job.Progress files (job.opening w) done v ∧
      report.counts = report.checks.foldl (fun total check => total + .ofCheck check)
        (totalOf (done.filterMap Prod.snd)) ∧
      report.dryRun = job.options.dryRun ∧ report.items = itemsOf (done.filterMap Prod.snd) ∧
      (job.reconciler.reconcile job.roots).Yields v report.checks v' ∧
      w' = { v' with progress := w'.progress } := by
  rw [runInOrder, yields_runWith] at h
  obtain ⟨only, inquiry, last, warnings, u, -, hscan, hconclude⟩ := h
  obtain ⟨hlast, hfailure, -, rfl⟩ := yields_scanInOrder.1 hscan
  obtain ⟨v', progress, hcounts, hcancelled, hdryRun, hitems, -, hw', hend⟩ :=
    yields_conclude hconclude
  rw [hgo] at hcancelled
  have hchecks : (job.reconciler.reconcile job.roots).Yields { last.workspace with progress }
      report.checks v' := by
    rcases hend with ⟨hover, -⟩ | ⟨-, hchecks⟩
    · rw [← hcancelled] at hover
      cases hover
    · rw [checkAnchors, yields_bind, hreanchor] at hchecks
      obtain ⟨checked, v₁, hreconcile, hdone⟩ := hchecks
      obtain ⟨rfl, rfl⟩ := yields_pure.1 hdone
      exact hreconcile
  obtain ⟨hunresolved, hwriteFailures, -⟩ := counts_of_checks report.checks last.total
  rw [← hcounts] at hunresolved hwriteFailures
  have hsound' : ¬last.total.Failed := fun hfailed =>
    hsound (hfailed.imp (hunresolved ▸ ·) (hwriteFailures ▸ ·))
  have hover : ¬last.Over := by
    refine not_over hfailure hcancelled.symm ?_ hsound'
    rw [hlast]
    exact grow_of_inTurn fun scan hscan => absurd hscan List.not_mem_nil
  rw [hlast] at hover
  obtain ⟨done, hdone, hprogress, hscans⟩ := progress_of_inTurn hcreate hdry horderly
    (Progress.start job files (job.opening w)) rfl (fun d hd => absurd hd List.not_mem_nil) hpaths
    (fun path _ d hd => absurd hd List.not_mem_nil) hdistinct hover
  rw [← hlast] at hprogress hscans
  have hreported : job.Progress files (job.opening w) done { last.workspace with progress } :=
    ⟨hprogress.outcomes, hprogress.named, ⟨hprogress.noted.path, hprogress.noted.keys,
      hprogress.noted.confirmed, hprogress.noted.anchors⟩, hprogress.disk, hprogress.found⟩
  refine ⟨done, _, v', hdone, hreported, ?_, hdryRun, ?_, hchecks, hw'⟩
  · rw [hcounts, ← hscans, totalOf_bare]
    rfl
  · rw [hitems, ← hscans, itemsOf_bare]
    rfl

section Perm

/-- There is one outcome for every file, so the same files come to the same. -/
theorem perm_of_outcomes (hcreate : job.options.createTasks = false)
    (h : ∀ d ∈ done, job.Outcome w d.1 d.2) (h' : ∀ d ∈ done', job.Outcome w d.1 d.2)
    (hfiles : (done.map Prod.fst).Perm (done'.map Prod.fst)) : done.Perm done' := by
  let outcome := fun path => Classical.epsilon (job.Outcome w path)
  have hsame : ∀ ds : List (Path × Option FileScan), (∀ d ∈ ds, job.Outcome w d.1 d.2) →
      (ds.map Prod.fst).map (fun path => (path, outcome path)) = ds := by
    intro ds hds
    rw [List.map_map]
    conv_rhs => rw [← List.map_id ds]
    refine List.map_congr_left fun d hd => ?_
    have hd := hds d hd
    exact Prod.ext rfl ((Classical.epsilon_spec ⟨d.2, hd⟩).unique hcreate hd)
  rw [← hsame done h, ← hsame done' h']
  exact hfiles.map _

theorem Outcome.exists_name {scan : FileScan} (h : job.Outcome w path (some scan)) :
    ∃ file, w.disk.tree.displayPath path job.repo = .ok file := by
  cases h with
  | scanned hgrammar hsees hvisit =>
    obtain ⟨file, hdisplay, -⟩ := yields_visitFile hvisit
    exact ⟨file, hsees.displayPath ▸ hdisplay⟩

variable (hperm : done.Perm done')
  (hdistinct : (done.map Prod.fst).Pairwise fun path other => ∀ file,
    w.disk.tree.displayPath path job.repo = .ok file →
      w.disk.tree.displayPath other job.repo ≠ .ok file)

include hperm

theorem totalOf_of_perm :
    totalOf (done'.filterMap Prod.snd) = totalOf (done.filterMap Prod.snd) :=
  ((hperm.filterMap _).foldl_eq'
    (fun a _ b _ total => Counts.add_right_comm total a.counts b.counts) {}).symm

include hdistinct

/-- The items of different files are not at the same place. -/
theorem itemsOf_of_perm (houtcomes : ∀ d ∈ done, job.Outcome w d.1 d.2)
    (hnamed : ∀ d ∈ done, ∀ file, w.disk.tree.displayPath d.1 job.repo = .ok file →
      ∀ scan ∈ d.2, scan.Named file) :
    itemsOf (done'.filterMap Prod.snd) = itemsOf (done.filterMap Prod.snd) := by
  have hapart : (done.filterMap Prod.snd).Pairwise fun scan other =>
      ∀ x ∈ scan.marks.map Mark.item, ∀ y ∈ other.marks.map Mark.item,
        ¬(ScanItem.order x y = true ∧ ScanItem.order y x = true) := by
    rw [List.pairwise_filterMap]
    refine (List.pairwise_map.1 hdistinct).imp_of_mem ?_
    rintro d d' hd hd' hne scan hscan scan' hscan' x hx y hy ⟨hxy, hyx⟩
    obtain ⟨mark, hmark, rfl⟩ := List.mem_map.1 hx
    obtain ⟨mark', hmark', rfl⟩ := List.mem_map.1 hy
    obtain ⟨file, hfile⟩ := (hscan ▸ houtcomes d hd).exists_name
    obtain ⟨file', hfile'⟩ := (hscan' ▸ houtcomes d' hd').exists_name
    have hsame := ScanItem.file_eq_of_order hxy hyx
    rw [hnamed d hd file hfile scan hscan mark hmark,
      hnamed d' hd' file' hfile' scan' hscan' mark' hmark'] at hsame
    exact hne file hfile (hsame ▸ hfile')
  rw [itemsOf, itemsOf, List.flatMap_def, List.flatMap_def]
  refine Eq.symm (mergeSort_flatten_of_perm ?_ ?_ ((hperm.filterMap _).map _) ?_)
  · exact fun _ _ _ => ScanItem.order_trans
  · exact ScanItem.order_total
  · exact List.pairwise_map.2 hapart

/-- Which sighting of a key in a file is the last one depends on that file alone. -/
theorem lastIn_of_perm (key file : Text) :
    lastIn (job.sighted w done') key file = lastIn (job.sighted w done) key file := by
  rw [lastIn, lastIn, sighted, sighted, List.flatMap_def, List.flatMap_def,
    filter_flatten_of_perm (hperm.map _)]
  rw [List.pairwise_map]
  refine (List.pairwise_map.1 hdistinct).imp fun {d d'} hne => ?_
  by_contra hboth
  rw [not_or] at hboth
  obtain ⟨s, hs⟩ := List.exists_mem_of_ne_nil _ hboth.1
  obtain ⟨s', hs'⟩ := List.exists_mem_of_ne_nil _ hboth.2
  obtain ⟨hs, hfile⟩ := List.mem_filter.1 hs
  obtain ⟨hs', hfile'⟩ := List.mem_filter.1 hs'
  have hname := sightedAt_file hs
  have hname' := sightedAt_file hs'
  rw [(of_decide_eq_true hfile).2] at hname
  rw [(of_decide_eq_true hfile').2] at hname'
  exact hne file hname hname'

/-- What a path leads to at the end depends on the files that were written, not on their order. -/
theorem afterChanges_of_done (houtcomes : ∀ d ∈ done, job.Outcome w d.1 d.2)
    (hdots : ∀ d ∈ done, FileTree.hereName ∉ d.1.names) (found : Location × Entry) :
    FileTree.afterChanges (job.changes w done') found =
      FileTree.afterChanges (job.changes w done) found := by
  refine (FileTree.afterChanges_of_perm (hperm.filterMap _) ?_ found).symm
  intro c hc c' hc' hplace
  obtain ⟨d, hd, hchange⟩ := List.mem_filterMap.1 hc
  obtain ⟨d', hd', hchange'⟩ := List.mem_filterMap.1 hc'
  obtain ⟨scan, hscan, hchange⟩ := Option.bind_eq_some_iff.1 hchange
  obtain ⟨scan', hscan', hchange'⟩ := Option.bind_eq_some_iff.1 hchange'
  have hsymm : Std.Symm fun (d d' : Path × Option FileScan) => ∀ file,
      w.disk.tree.displayPath d.1 job.repo = .ok file →
        w.disk.tree.displayPath d'.1 job.repo ≠ .ok file :=
    ⟨fun _ _ h file hfile hfile' => h file hfile' hfile⟩
  by_cases hsame : d = d'
  · subst hsame
    rw [hscan] at hscan'
    cases hscan'
    rw [hchange] at hchange'
    exact Option.some.inj hchange'
  · have hne := (List.pairwise_map.1 hdistinct).forall hd hd' hsame
    obtain ⟨file, hfile⟩ := (hscan ▸ houtcomes d hd).exists_name
    obtain ⟨entry, text, hfind, htext⟩ := reads_of_changeAt hchange
    obtain ⟨entry', text', hfind', htext'⟩ := reads_of_changeAt hchange'
    exact absurd (FileTree.displayPath_of_find (hdots d hd) (hdots d' hd') (hplace ▸ hfind) hfind'
      htext' hfile) (hne file hfile)

end Perm

section Anchors

variable {key : Text} {after : List Anchor} {a : Anchor}

/-- A key is confirmed in every file in which it was sighted. -/
theorem Progress.lastIn_of_unconfirmed (h : job.Progress files w done v)
    (hopen : unconfirmed v key a = true) : lastIn (job.sighted w done) key a.file = none := by
  cases hlast : lastIn (job.sighted w done) key a.file with
  | none => rfl
  | some b =>
    have hconfirmed := (h.noted.confirmed key a.file).2 (.inr (hlast ▸ rfl))
    exact absurd hconfirmed (unconfirmed_iff.1 hopen)

/-- An anchor that the scan has not confirmed was recorded before. -/
theorem Progress.mem_before (h : job.Progress files w done v) (hafter : v.anchors key = .ok after)
    (ha : a ∈ after) (hopen : unconfirmed v key a = true) :
    ∃ before, w.anchors key = .ok before ∧ a ∈ before := by
  obtain ⟨before, hbefore, hsame, -⟩ := h.noted.anchors key after hafter
  have hmem := mem_unsighted.2 ⟨ha, h.lastIn_of_unconfirmed hopen⟩
  rw [hsame] at hmem
  exact ⟨before, hbefore, (mem_unsighted.1 hmem).1⟩

/-- The anchors of a key after its sightings. -/
theorem Progress.mem_anchors_iff (h : job.Progress files w done v) {before : List Anchor}
    (hbefore : w.anchors key = .ok before) (hafter : v.anchors key = .ok after) (a : Anchor) :
    a ∈ after ↔ if job.options.dryRun then a ∈ before
      else match lastIn (job.sighted w done) key a.file with
        | some b => a = b
        | none => a ∈ before := by
  obtain ⟨before', hbefore', hsame, hrecorded⟩ := h.noted.anchors key after hafter
  rw [hbefore] at hbefore'
  cases hbefore'
  cases hdry : job.options.dryRun with
  | true =>
    rw [hdry, if_pos rfl] at hrecorded
    rw [if_pos rfl, hrecorded]
  | false =>
    rw [hdry, if_neg Bool.false_ne_true] at hrecorded
    rw [if_neg Bool.false_ne_true]
    cases hlast : lastIn (job.sighted w done) key a.file with
    | some b =>
      dsimp only
      rw [← hrecorded a.file b hlast a, mem_inFile]
      simp
    | none =>
      dsimp only
      have hmem : ∀ bs, a ∈ bs ↔ a ∈ unsighted (job.sighted w done) key bs := fun bs => by
        rw [mem_unsighted, and_iff_left hlast]
      rw [hmem after, hsame, ← hmem]

/-- Two scans of the same files leave their tasks abreast. -/
theorem Progress.abreast (h : job.Progress files w done v) (h' : job.Progress files w done' v')
    (hlast : ∀ key file,
      lastIn (job.sighted w done') key file = lastIn (job.sighted w done) key file)
    (hsame : ∀ path, w.Apart files path → v.disk.tree.SameAt v'.disk.tree path)
    (hanchors : ∀ key as, w.anchors key = .ok as → ∀ a ∈ as,
      w.Apart files (job.reconciler.path a.file))
    (key : Text) : Abreast job.reconciler key v v' := by
  have hconfirmed : ∀ file,
      (key, file) ∈ v'.sightings.confirmed ↔ (key, file) ∈ v.sightings.confirmed := fun file => by
    rw [h.noted.confirmed, h'.noted.confirmed, hlast]
  refine ⟨hconfirmed, ?_, ?_, ?_⟩
  · intro as as' has has' a
    obtain ⟨before, hbefore, -⟩ := h.noted.anchors key as has
    rw [h.mem_anchors_iff hbefore has, h'.mem_anchors_iff hbefore has', hlast]
  · intro as as' has has'
    obtain ⟨before, hbefore, hunsighted, -⟩ := h.noted.anchors key as has
    obtain ⟨before', hbefore', hunsighted', -⟩ := h'.noted.anchors key as' has'
    rw [hbefore] at hbefore'
    cases hbefore'
    -- What was not confirmed was not sighted, so only the rest of the anchors is looked at.
    have hopen : ∀ (ds : List (Path × Option FileScan)), (∀ key file,
        lastIn (job.sighted w ds) key file = lastIn (job.sighted w done) key file) →
        ∀ bs, bs.filter (unconfirmed v key) =
          (unsighted (job.sighted w ds) key bs).filter (unconfirmed v key) := by
      intro ds hds bs
      rw [unsighted, List.filter_filter]
      refine List.filter_congr fun a _ => ?_
      cases hcase : unconfirmed v key a with
      | false => rfl
      | true =>
        rw [hds, h.lastIn_of_unconfirmed hcase]
        rfl
    rw [hopen done' hlast as', hunsighted', ← hopen done' hlast, hopen done (fun _ _ => rfl) as,
      hunsighted, ← hopen done fun _ _ => rfl]
  · intro as has a ha hopen
    obtain ⟨before, hbefore, hmem⟩ := h.mem_before has ha hopen
    exact (hsame _ (hanchors key before hbefore a hmem)).agreeAt

theorem Progress.stillFor (h : job.Progress files w done v)
    (hanchors : ∀ key as, w.anchors key = .ok as → ∀ a ∈ as,
      w.Apart files (job.reconciler.path a.file))
    (key : Text) : StillFor job.reconciler v key := by
  intro as has a ha hopen
  obtain ⟨before, hbefore, hmem⟩ := h.mem_before has ha hopen
  exact (hanchors key before hbefore a hmem).undisturbed h.noted.path h.disk

end Anchors

theorem Orderly.opening (h : job.Orderly w files) : job.Orderly (job.opening w) files := by
  rw [opening_eq]
  exact ⟨h.plain, h.undotted, h.apart, h.distinct⟩

/-- Scans of the same files in two orders, neither of which fails or is cancelled, report the same,
warnings apart. They leave the same at every path apart from the task file, and every task has the
same anchors, in some order. -/
theorem runInOrder_perm (hcreate : job.options.createTasks = false)
    (hreanchor : job.options.reanchor = false) (hrenames : job.reconciler.renames = [])
    (hdry : job.reconciler.dryRun = job.options.dryRun) (horderly : job.Orderly w files)
    (hanchors : ∀ key as, w.anchors key = .ok as → ∀ a ∈ as,
      w.Apart files (job.reconciler.path a.file))
    (hperm : files.Perm files') (hrun : (job.runInOrder files).Yields w report v)
    (hrun' : (job.runInOrder files').Yields w report' v') (hsound : ¬report.counts.Failed)
    (hsound' : ¬report'.counts.Failed) (hgo : report.cancelled = false)
    (hgo' : report'.cancelled = false) :
    report' = { report with warnings := report'.warnings } ∧
      (∀ path, w.Apart files path → v.disk.tree.SameAt v'.disk.tree path) ∧
      ∀ key, ∃ as as', v.anchors key = .ok as ∧ v'.anchors key = .ok as' ∧
        ∀ a, a ∈ as' ↔ a ∈ as := by
  have hopen := horderly.opening
  have hdistinct' := hopen.distinct.perm hperm fun {path other} h file hfile hfile' =>
    h file hfile' hfile
  obtain ⟨done, u, u', hdone, hp, hcounts, hdryRun, hitems, hchecks, hv⟩ :=
    exists_progress hcreate hreanchor hdry hopen (fun _ h => h) hopen.distinct hrun hsound hgo
  obtain ⟨done', x, x', hdone', hp', hcounts', hdryRun', hitems', hchecks', hv'⟩ :=
    exists_progress hcreate hreanchor hdry hopen (fun _ h => hperm.mem_iff.2 h) hdistinct' hrun'
      hsound' hgo'
  have hdones : done.Perm done' :=
    perm_of_outcomes hcreate hp.outcomes hp'.outcomes (by rw [hdone, hdone']; exact hperm)
  have hdistinct := hdone ▸ hopen.distinct
  have hlast := lastIn_of_perm hdones hdistinct
  have hmid : ∀ path, (job.opening w).Apart files path → u.disk.tree.SameAt x.disk.tree path := by
    intro path hapart
    obtain ⟨hfind, hresolve⟩ := hp.found path hapart
    obtain ⟨hfind', hresolve'⟩ := hp'.found path hapart
    refine ⟨?_, hresolve'.trans hresolve.symm⟩
    rw [hfind, hfind']
    congr 1
    funext found
    refine afterChanges_of_done hdones hdistinct hp.outcomes (fun d hd => ?_) found
    exact hopen.undotted d.1 (hdone ▸ List.mem_map_of_mem hd)
  have hanchors' : ∀ key as, (job.opening w).anchors key = .ok as → ∀ a ∈ as,
      (job.opening w).Apart files (job.reconciler.path a.file) := by
    rw [opening_eq]
    exact hanchors
  have habreast := hp.abreast hp' hlast hmid hanchors'
  have hstill := hp.stillFor hanchors'
  have hstill' := hp'.stillFor hanchors'
  have hkeys : x.store.document.tasks.keys = u.store.document.tasks.keys :=
    hp'.noted.keys.trans hp.noted.keys.symm
  obtain ⟨hsame, hmembers⟩ :=
    reconcile_of_abreast hrenames habreast hkeys hstill hstill' hchecks hchecks'
  have honward := onward_of_reconcile hchecks
  have honward' := onward_of_reconcile hchecks'
  refine ⟨?_, ?_, ?_⟩
  · have hitems_eq : report'.items = report.items := by
      rw [hitems, hitems', itemsOf_of_perm hdones hdistinct hp.outcomes hp.named]
    have hcounts_eq : report'.counts = report.counts := by
      rw [hcounts, hcounts', totalOf_of_perm hdones, hsame]
    exact ScanReport.eq_of_same hcounts_eq (hgo'.trans hgo.symm) (hdryRun'.trans hdryRun.symm)
      hitems_eq hsame
  · intro path hapart
    have hopened : (job.opening w).Apart files path := by
      rw [opening_eq]
      exact hapart
    have hbefore := hopened.saved hp.noted.path hp.disk honward.saved
    have hafter := hopened.saved hp'.noted.path hp'.disk honward'.saved
    rw [hv, hv']
    exact hbefore.symm.trans ((hmid path hopened).trans hafter)
  · intro key
    have hlegible := honward.saved.legible (legible_of_reconcile hchecks)
    have hlegible' := honward'.saved.legible (legible_of_reconcile hchecks')
    obtain ⟨as, has⟩ := hlegible.exists_anchors key
    obtain ⟨as', has'⟩ := hlegible'.exists_anchors key
    rw [hv, hv']
    exact ⟨as, as', has, has', hmembers key as as' has has'⟩

section Pair

/-- Two files with the same text, which has a key of a task. -/
def pairWorkspace : Workspace := .inMemory
  ⟨[(["a.c".toList], .file (Utf8.encode "//T A".toList)),
    (["b.c".toList], .file (Utf8.encode "//T A".toList))], by decide⟩
  twinWorkspace.store.document.tasks

/-- Scanning the two files, one after the other, anchors the task in the one and then in the
other. -/
theorem yields_pair {first second : Text} (name : Text) (extensions : List Text)
    (h : first = "a.c".toList ∧ second = "b.c".toList ∨
      first = "b.c".toList ∧ second = "a.c".toList) :
    ∃ s₁ w₁ s₂ w₂ w₃,
      (twinJob.visitFile (.ofLocation [first]) (slashGrammar name extensions)).Yields
        pairWorkspace s₁ w₁ ∧
      (twinJob.visitFile (.ofLocation [second]) (slashGrammar name extensions)).Yields w₁ s₂ w₂ ∧
      twinJob.checkAnchors.Yields w₂ [] w₃ ∧ ¬(({} : Counts) + s₁.counts + s₂.counts).Failed ∧
      w₃.anchors "A".toList = .ok [⟨first, 1⟩, ⟨second, 1⟩] := by
  have hrun : ((do
      let s₁ ← twinJob.visitFile (.ofLocation [first]) (slashGrammar name extensions)
      let s₂ ← twinJob.visitFile (.ofLocation [second]) (slashGrammar name extensions)
      let checks ← twinJob.checkAnchors
      let w ← get
      return (checks, s₁.counts, s₂.counts, w.anchors "A".toList) : Work _).run
        pairWorkspace).1.toOption = some ([],
          { filesScanned := 1, markersFound := 1, anchorsConfirmed := 1, anchorsAdded := 1 },
          { filesScanned := 1, markersFound := 1, anchorsConfirmed := 1, anchorsAdded := 1 },
          .ok [⟨first, 1⟩, ⟨second, 1⟩]) := by
    rcases h with ⟨rfl, rfl⟩ | ⟨rfl, rfl⟩ <;> cbv
  obtain ⟨answer, hyields⟩ := exists_yields (congrArg Option.isSome hrun)
  rw [hyields] at hrun
  obtain rfl := Option.some.inj hrun
  simp only [yields_bind, yields_get, yields_pure, Prod.mk.injEq] at hyields
  obtain ⟨s₁, w₁, hfirst, s₂, w₂, hsecond, checks, w₃, hchecks, _, _, ⟨rfl, rfl⟩,
    ⟨hnone, hcounts₁, hcounts₂, hanchors⟩, -⟩ := hyields
  refine ⟨s₁, w₁, s₂, w₂, _, hfirst, hsecond, hnone ▸ hchecks, ?_, hanchors⟩
  rw [hcounts₁, hcounts₂]
  rintro (h | h) <;> exact absurd h (by decide)

theorem exists_run_pair {first second : Text}
    (h : first = "a.c".toList ∧ second = "b.c".toList ∨
      first = "b.c".toList ∧ second = "a.c".toList) :
    ∃ report v, (twinJob.runInOrder [.ofLocation [first], .ofLocation [second]]).Yields
        pairWorkspace report v ∧ ¬report.counts.Failed ∧ report.cancelled = false ∧
      v.anchors "A".toList = .ok [⟨first, 1⟩, ⟨second, 1⟩] := by
  obtain ⟨name, extensions, hgrammar⟩ := grammar_of_suffix
  obtain ⟨s₁, w₁, s₂, w₂, w₃, hfirst, hsecond, hchecks, hsound, hanchors⟩ :=
    yields_pair name extensions h
  have hmine : Grammar.ofPath? (.ofLocation [first]) = some (slashGrammar name extensions) ∧
      Grammar.ofPath? (.ofLocation [second]) = some (slashGrammar name extensions) := by
    rcases h with ⟨rfl, rfl⟩ | ⟨rfl, rfl⟩ <;>
      exact ⟨hgrammar _ (by decide +kernel) (by decide +kernel),
        hgrammar _ (by decide +kernel) (by decide +kernel)⟩
  obtain ⟨w, hw⟩ : ∃ w, w = pairWorkspace := ⟨_, rfl⟩
  have hopening : twinJob.opening w = w := hw ▸ rfl
  rw [← hw] at hfirst ⊢
  have hturns : Walker.inTurn twinJob.visit [.ofLocation [first], .ofLocation [second]]
      { workspace := w } = { workspace := w₂, queries := 4, scans := [s₁, s₂] } := by
    have hvisit := visit_of_yields { workspace := w } rfl hmine.1 hfirst
    have hvisit' := visit_of_yields { workspace := w₁, queries := 2, scans := [s₁] } rfl hmine.2
      hsecond
    simp only [Walker.inTurn, hvisit, Nat.zero_add, List.nil_append, hvisit',
      List.singleton_append]
  have hscan : (twinJob.scanInOrder [.ofLocation [first], .ofLocation [second]]).Yields
      (twinJob.opening w) ({ workspace := w₂, queries := 4, scans := [s₁, s₂] }, []) w₂ := by
    rw [hopening, yields_scanInOrder, hturns]
    exact ⟨rfl, rfl, rfl, rfl⟩
  obtain ⟨report, hyields, hgo, hcounts, -⟩ := @exists_yields_runWith twinJob w w₃
    (fun _ => twinJob.scanInOrder [.ofLocation [first], .ofLocation [second]])
    { workspace := w₂, queries := 4, scans := [s₁, s₂] } [] [] rfl rfl hscan rfl hchecks
  have htotal : report.counts = ({} : Counts) + s₁.counts + s₂.counts := by
    rw [hcounts, ScanRun.total]
    simp only [List.foldl_cons, List.foldl_nil]
  refine ⟨report, w₃, hyields, ?_, hgo, hanchors⟩
  rw [htotal]
  exact hsound

theorem orderly_pair :
    twinJob.Orderly pairWorkspace [.ofLocation ["a.c".toList], .ofLocation ["b.c".toList]] := by
  have hname : pairWorkspace.disk.tree.displayPath (.ofLocation ["a.c".toList]) twinJob.repo =
      .ok "a.c".toList := by cbv
  have hname' : pairWorkspace.disk.tree.displayPath (.ofLocation ["b.c".toList]) twinJob.repo =
      .ok "b.c".toList := by cbv
  refine ⟨?_, by decide, fun _ _ => Workspace.apart_of_no_file rfl _ _, ?_⟩
  · intro path hpath file hfile
    rcases List.mem_pair.1 hpath with rfl | rfl
    · rw [hname] at hfile
      cases hfile
      exact ⟨by decide, by decide, by decide⟩
    · rw [hname'] at hfile
      cases hfile
      exact ⟨by decide, by decide, by decide⟩
  · rw [List.pairwise_pair]
    intro file hfile
    rw [hname] at hfile
    rw [hname', ← hfile]
    intro hsame
    exact absurd (Except.ok.inj hsame) (by decide)

/-- The two files in both orders: the anchors of the task come in another order, and the items in
the same. -/
theorem runInOrder_perm_pair : ∃ report report' v v',
    (twinJob.runInOrder [.ofLocation ["a.c".toList], .ofLocation ["b.c".toList]]).Yields
      pairWorkspace report v ∧
    (twinJob.runInOrder [.ofLocation ["b.c".toList], .ofLocation ["a.c".toList]]).Yields
      pairWorkspace report' v' ∧
    v.anchors "A".toList = .ok [⟨"a.c".toList, 1⟩, ⟨"b.c".toList, 1⟩] ∧
    v'.anchors "A".toList = .ok [⟨"b.c".toList, 1⟩, ⟨"a.c".toList, 1⟩] ∧
    report' = { report with warnings := report'.warnings } := by
  obtain ⟨report, v, hrun, hsound, hgo, hanchors⟩ := exists_run_pair (.inl ⟨rfl, rfl⟩)
  obtain ⟨report', v', hrun', hsound', hgo', hanchors'⟩ := exists_run_pair (.inr ⟨rfl, rfl⟩)
  obtain ⟨hreport, -, -⟩ := runInOrder_perm rfl rfl rfl rfl orderly_pair
    (fun _ _ _ _ _ => Workspace.apart_of_no_file rfl _ _) (.swap _ _ []) hrun hrun' hsound hsound'
    hgo hgo'
  exact ⟨report, report', v, v', hrun, hrun', hanchors, hanchors', hreport⟩

end Pair

end ScanJob

end TodoTracker
