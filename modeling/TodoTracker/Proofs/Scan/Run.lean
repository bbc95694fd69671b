import TodoTracker.Proofs.Scan.Visit
import TodoTracker.Proofs.Traversal.Run
import TodoTracker.Scan.Job

/-!
# The files of a scan

A scan reads files one after another, and each is seen as it is when the walk comes to it. What
holds when the walk starts, and is kept by the scan of every file, holds when the anchors are
checked at the end.
-/

set_option autoImplicit false

namespace TodoTracker

open Work

namespace ScanRun

/-- The counts of the files that have been scanned. -/
def total (run : ScanRun) : Counts := run.scans.foldl (fun total scan => total + scan.counts) {}

theorem total_append {run run' : ScanRun} {scan : FileScan}
    (h : run'.scans = run.scans ++ [scan]) : run'.total = run.total + scan.counts := by
  simp [total, h]

theorem total_congr {run run' : ScanRun} (h : run'.scans = run.scans) : run'.total = run.total := by
  simp [total, h]

end ScanRun

namespace ScanJob

variable {job : ScanJob} {path : Path} {w w' : Workspace} {report : ScanReport}

/-- The name and the candidates of the file that is scanned when a run comes to a path, if any. -/
def fileAt? (job : ScanJob) (path : Path) (run : ScanRun) : Option (Text × List Candidate) :=
  if job.isCancelled { run with queries := run.queries + 1 } then none
  else do
    let grammar ← Grammar.ofPath? path
    let file ← (run.workspace.disk.tree.displayPath path job.repo).toOption
    let text ← (run.workspace.disk.tree.readText path).toOption
    return (file, job.scanner.scan text.contents grammar)

/-- The files to which a scan is restricted, if it is. -/
def selection (job : ScanJob) (w : Workspace) : Except Failure (Option (List Location)) :=
  if job.options.modifiedOnly then (job.inquiry.changed w.git w.disk.tree job.gitRoot).1
  else .ok none

def request (job : ScanJob) (only : Option (List Location)) : WalkRequest :=
  ⟨some (.ofLocation job.repo), job.options.included, job.options.excluded, only⟩

/-- The workspace in which the walk of a scan starts. -/
def opening (job : ScanJob) (w : Workspace) : Workspace :=
  ((job.announce ("  [....] Scanning ".toList ++ plural job.roots.length "root".toList)).run
    { w with sightings := {} }).2

/-- The end of a scan: its anchors are checked, unless it was cancelled, and it is reported. -/
def conclude (job : ScanJob) (run : ScanRun) (warnings : List Text) : Work ScanReport := do
  let fileCounts := run.scans.foldl (fun total scan => total + scan.counts) {}
  let checks ← if run.cancelled then pure [] else do
    job.announce "  [....] Reconciling anchors".toList
    job.checkAnchors
  job.announce ("  [done] Scanned ".toList ++ plural fileCounts.filesScanned "file".toList ++
    ", ".toList ++ plural fileCounts.markersFound "marker".toList)
  return {
    counts := checks.foldl (fun total check => total + .ofCheck check) fileCounts
    cancelled := run.cancelled
    dryRun := job.options.dryRun
    items := (run.scans.flatMap fun scan => scan.marks.map Mark.item).mergeSort ScanItem.order
    checks
    warnings := warnings ++ run.scans.flatMap FileScan.warnings ++ (← get).sightings.warnings }

/-- A scan that gets to its files in some way, with the files to which it is restricted. -/
def runWith (job : ScanJob) (scan : Option (List Location) → Work (ScanRun × List Text)) :
    Work ScanReport := do
  modify fun w => { w with sightings := {} }
  let w ← get
  let (outcome, inquiry) :=
    if job.options.modifiedOnly then
      job.inquiry.changed w.git w.disk.tree job.gitRoot
    else (.ok none, job.inquiry)
  let only ← Work.ofExcept outcome
  job.announce ("  [....] Scanning ".toList ++ plural job.roots.length "root".toList)
  let (run, walkWarnings) ← scan only
  job.conclude run (inquiry.warnings ++ walkWarnings)

theorem run_eq_runWith (job : ScanJob) : job.run = job.runWith job.scanFiles := rfl

/-- The visits of a walk that starts in a workspace. -/
def visits (job : ScanJob) (only : Option (List Location)) (w : Workspace) :
    List (Path × ScanRun) :=
  Walker.visits (job.request only) (·.workspace.disk.tree) job.visit
    (.start (job.roots.map .ofLocation) w.directories) { workspace := w }

/-- The walk through the files of a scan, from a workspace. -/
def walkFrom (job : ScanJob) (only : Option (List Location)) (w : Workspace) :
    Except Failure Unit × Walker × ScanRun :=
  Walker.run (job.request only) (·.workspace.disk.tree) job.visit
    (.start (job.roots.map .ofLocation) w.directories) { workspace := w }

/-- The visits of a scan. -/
def walked (job : ScanJob) (w : Workspace) : List (Path × ScanRun) :=
  match job.selection w with
  | .error _ => []
  | .ok only => job.visits only (job.opening w)

/-- The files that a scan reads, each with its name and its candidates. -/
def scannedFiles (job : ScanJob) (w : Workspace) : List (Text × List Candidate) :=
  (job.walked w).filterMap fun (path, run) => job.fileAt? path run

/-- What a visit does. -/
inductive Visited (job : ScanJob) (path : Path) (run : ScanRun) : ScanRun → Prop
  | passed {run' : ScanRun} (hfile : job.fileAt? path run = none) (hscans : run'.scans = run.scans)
      (hworkspace : run'.workspace = run.workspace) (hfailure : run'.failure = run.failure) :
      Visited job path run run'
  | skipped {run' : ScanRun} {scan : FileScan} (hfile : job.fileAt? path run = none)
      (hscans : run'.scans = run.scans ++ [scan]) (hcounts : scan.counts = { filesSkipped := 1 })
      (hmarks : scan.marks = []) (hworkspace : run'.workspace = run.workspace)
      (hfailure : run'.failure = run.failure) :
      Visited job path run run'
  | failed {run' : ScanRun} (hfailure : run'.failure ≠ none) : Visited job path run run'
  | scanned {run' : ScanRun} {scan : FileScan} {grammar : Grammar} {file text : Text}
      (hfile : job.fileAt? path run = some (file, job.scanner.scan text.contents grammar))
      (hgrammar : Grammar.ofPath? path = some grammar)
      (hdisplay : run.workspace.disk.tree.displayPath path job.repo = .ok file)
      (htext : run.workspace.disk.tree.readText path = .ok text)
      (hvisit : (job.visitFile path grammar).Yields run.workspace scan run'.workspace)
      (hscans : run'.scans = run.scans ++ [scan]) (hfailure : run'.failure = run.failure) :
      Visited job path run run'

theorem visited (job : ScanJob) (path : Path) (run : ScanRun) :
    Visited job path run (job.visit path run).2 := by
  rw [visit]
  dsimp only
  split
  · rename_i hcancelled
    have hlater : job.isCancelled { run with queries := run.queries + 1 } = true := by
      simp only [isCancelled, Option.any_eq_true, decide_eq_true_eq] at hcancelled ⊢
      obtain ⟨limit, hlimit, hle⟩ := hcancelled
      exact ⟨limit, hlimit, Nat.le_succ_of_le hle⟩
    exact .passed (by rw [fileAt?, if_pos hlater]) rfl rfl rfl
  · split
    · rename_i hgrammar
      refine .passed ?_ rfl rfl rfl
      rw [fileAt?, hgrammar]
      split <;> rfl
    · rename_i grammar hgrammar
      split
      · rename_i hcancelled
        exact .passed (by rw [fileAt?, if_pos hcancelled]) rfl rfl rfl
      · rename_i hgo
        have hat : job.fileAt? path run = do
            let file ← (run.workspace.disk.tree.displayPath path job.repo).toOption
            let text ← (run.workspace.disk.tree.readText path).toOption
            return (file, job.scanner.scan text.contents grammar) := by
          rw [fileAt?, if_neg hgo, hgrammar]
          rfl
        rw [scanInto]
        rcases hrun : (job.visitFile path grammar).run run.workspace with ⟨e | scan, v⟩
        · exact .failed (by cases run.failure <;> simp)
        · obtain ⟨file, hdisplay, ⟨e, warning, hunread, rfl, rfl⟩ |
            ⟨text, scan₁, scan₂, w₁, w₂, htext, -⟩⟩ := yields_visitFile hrun
          · refine .skipped ?_ rfl rfl rfl rfl rfl
            rw [hat, hdisplay, hunread]
            rfl
          · refine .scanned ?_ hgrammar hdisplay htext hrun rfl rfl
            rw [hat, hdisplay, htext]
            rfl

theorem visit_of_yields (run : ScanRun) {grammar : Grammar} {scan : FileScan}
    (hcancel : job.options.cancelAfter = none) (hgrammar : Grammar.ofPath? path = some grammar)
    (h : (job.visitFile path grammar).Yields run.workspace scan w') :
    job.visit path run = (true, { run with
      workspace := w', queries := run.queries + 2, scans := run.scans ++ [scan] }) := by
  rw [visit]
  simp only [isCancelled, hcancel, hgrammar, scanInto]
  rw [h]
  rfl

/-- What holds when the walk of a scan starts, and is kept by every visit that has not failed. It is
about the visits so far, the counts of their files and the workspace. -/
structure VisitInvariant (job : ScanJob) (w : Workspace)
    (P : List (Path × ScanRun) → Counts → Workspace → Prop) : Prop where
  start : P [] {} (job.opening w)
  pass : ∀ {done total path run}, P done total run.workspace → job.fileAt? path run = none →
    P (done ++ [(path, run)]) total run.workspace
  skip : ∀ {done total path run}, P done total run.workspace → job.fileAt? path run = none →
    P (done ++ [(path, run)]) (total + { filesSkipped := 1 }) run.workspace
  visit : ∀ {done total path run grammar file text scan v'}, P done total run.workspace →
    job.fileAt? path run = some (file, job.scanner.scan text.contents grammar) →
    Grammar.ofPath? path = some grammar →
    run.workspace.disk.tree.displayPath path job.repo = .ok file →
    run.workspace.disk.tree.readText path = .ok text →
    (job.visitFile path grammar).Yields run.workspace scan v' → ¬scan.counts.Failed →
    P (done ++ [(path, run)]) (total + scan.counts) v'

/-- What holds when the walk of a scan starts, and is kept by every file that is skipped or scanned
without a failure. It is about the files so far, their counts and the workspace. -/
structure Invariant (job : ScanJob) (w : Workspace)
    (P : List (Text × List Candidate) → Counts → Workspace → Prop) : Prop where
  start : P [] {} (job.opening w)
  skip : ∀ {done total v}, P done total v → P done (total + { filesSkipped := 1 }) v
  visit : ∀ {done total v path grammar file text scan v'}, P done total v →
    v.disk.tree.displayPath path job.repo = .ok file → v.disk.tree.readText path = .ok text →
    (job.visitFile path grammar).Yields v scan v' → ¬scan.counts.Failed →
    P (done ++ [(file, job.scanner.scan text.contents grammar)]) (total + scan.counts) v'

theorem Invariant.ofVisits {P : List (Text × List Candidate) → Counts → Workspace → Prop}
    (hinv : job.Invariant w P) : job.VisitInvariant w fun done total v =>
      P (done.filterMap fun (path, run) => job.fileAt? path run) total v where
  start := hinv.start
  pass h hfile := by simpa [hfile] using h
  skip h hfile := by simpa [hfile] using hinv.skip h
  visit h hfile _ hdisplay htext hvisit hsound := by
    simpa [hfile] using hinv.visit h hdisplay htext hvisit hsound

/-- A run that has come to some file: its counts only grow, and an invariant holds unless something
has failed. -/
structure Going (P : List (Path × ScanRun) → Counts → Workspace → Prop)
    (done : List (Path × ScanRun)) (run : ScanRun) : Prop where
  grow : Counts.Grow {} run.total
  holds : run.total.Failed ∨ P done run.total run.workspace

variable {P : List (Path × ScanRun) → Counts → Workspace → Prop}

theorem Going.visit {done : List (Path × ScanRun)} {run run' : ScanRun}
    (hinv : job.VisitInvariant w P) (h : Going P done run) (hvisited : Visited job path run run')
    (hsound : run'.failure = none) : Going P (done ++ [(path, run)]) run' := by
  cases hvisited with
  | failed hfailure => exact absurd hsound hfailure
  | passed hfile hscans hworkspace _ =>
    refine ⟨?_, ?_⟩
    · rw [ScanRun.total_congr hscans]
      exact h.grow
    · rw [ScanRun.total_congr hscans, hworkspace]
      exact h.holds.imp id fun hholds => hinv.pass hholds hfile
  | @skipped scan hfile hscans hcounts _ hworkspace _ =>
    have hgrow : Counts.Grow {} scan.counts := by
      rw [hcounts]
      exact ⟨Int.le_refl _, Int.le_refl _, Int.le_refl _, Int.le_refl _⟩
    have hnext : run.total.Grow run'.total := ScanRun.total_append hscans ▸ .add _ hgrow
    refine ⟨h.grow.trans hnext, h.holds.imp (·.grow hnext) fun hholds => ?_⟩
    rw [ScanRun.total_append hscans, hcounts, hworkspace]
    exact hinv.skip hholds hfile
  | @scanned scan grammar file text hfile hgrammar hdisplay htext hvisit hscans _ =>
    have hgrow := grow_of_visitFile hvisit
    have hnext : run.total.Grow run'.total := ScanRun.total_append hscans ▸ .add _ hgrow
    refine ⟨h.grow.trans hnext, ?_⟩
    rw [ScanRun.total_append hscans]
    by_cases hfailed : scan.counts.Failed
    · exact .inl (hfailed.imp (fun hlt => Int.lt_of_lt_of_le hlt (Int.le_add_of_nonneg_left
        h.grow.unresolved)) fun hlt => Int.lt_of_lt_of_le hlt (Int.le_add_of_nonneg_left
        h.grow.writeFailures))
    · exact h.holds.imp (·.grow (.add _ hgrow)) fun hholds =>
        hinv.visit hholds hfile hgrammar hdisplay htext hvisit hfailed

/-- What the anchors that are checked at the end of a scan count as is neither a failure nor a
change of a task or a file. -/
theorem counts_of_checks (checks : List AnchorVerdict) (counts : Counts) :
    let total := checks.foldl (fun total check => total + .ofCheck check) counts
    total.unresolved = counts.unresolved ∧ total.writeFailures = counts.writeFailures ∧
      total.tasksCreated = counts.tasksCreated ∧ total.filesWritten = counts.filesWritten := by
  induction checks generalizing counts with
  | nil => exact ⟨rfl, rfl, rfl, rfl⟩
  | cons check checks ih =>
    have hcheck : Counts.ofCheck check = { Counts.ofCheck check with
        unresolved := 0, writeFailures := 0, tasksCreated := 0, filesWritten := 0 } := by
      rw [Counts.ofCheck]
      split <;> rfl
    obtain ⟨h₁, h₂, h₃, h₄⟩ := ih (counts + .ofCheck check)
    rw [hcheck] at h₁ h₂ h₃ h₄
    rw [List.foldl_cons, hcheck]
    exact ⟨h₁.trans (Int.add_zero _), h₂.trans (Int.add_zero _), h₃.trans (Int.add_zero _),
      h₄.trans (Int.add_zero _)⟩

theorem yields_announce {line : Text} {u : Unit} (h : (job.announce line).Yields w u w') :
    w' = { w with progress := w'.progress } := by
  rw [announce] at h
  split at h
  · rw [yields_modify.1 h]
  · rw [(yields_pure.1 h).2]

theorem yields_close {line : Text} {close : Workspace → ScanReport}
    (h : Yields (do job.announce line; return close (← get)) w report w') :
    w' = { w with progress := w'.progress } ∧ ∃ v, report = close v := by
  rw [yields_bind] at h
  obtain ⟨_, w₁, hannounce, h⟩ := h
  obtain ⟨v, w₂, hget, h⟩ := yields_bind.1 h
  obtain ⟨rfl, rfl⟩ := yields_get.1 hget
  obtain ⟨rfl, rfl⟩ := yields_pure.1 h
  exact ⟨yields_announce hannounce, _, rfl⟩

/-- Scanning files that succeeds ends where the walk does. -/
theorem last_of_scanFiles {only : Option (List Location)} {last : ScanRun} {warnings : List Text}
    (h : (job.scanFiles only).Yields w (last, warnings) w') :
    last = (Walker.run (job.request only) (·.workspace.disk.tree) job.visit
        (.start (job.roots.map .ofLocation) w.directories) { workspace := w }).2.2 ∧
      last.failure = none ∧ w' = last.workspace := by
  rw [scanFiles, yields_bind] at h
  obtain ⟨v, w₁, hget, h⟩ := h
  obtain ⟨rfl, rfl⟩ := yields_get.1 hget
  rw [yields_bind] at h
  obtain ⟨_, w₂, hset, h⟩ := h
  obtain rfl := yields_set.1 hset
  obtain ⟨_, w₃, houtcome, hanswer⟩ := yields_bind.1 h
  obtain ⟨-, rfl⟩ := yields_ofExcept.1 houtcome
  split at hanswer
  · exact absurd hanswer not_yields_throw
  · rename_i hfailure
    obtain ⟨hsame, rfl⟩ := yields_pure.1 hanswer
    cases hsame
    exact ⟨rfl, hfailure, rfl⟩

theorem Visited.failure_eq {run run' : ScanRun} (h : Visited job path run run')
    (hsound : run'.failure = none) : run.failure = none := by
  cases h with
  | failed hfailure => exact absurd hsound hfailure
  | passed _ _ _ hfailure => exact hfailure ▸ hsound
  | skipped _ _ _ _ _ hfailure => exact hfailure ▸ hsound
  | scanned _ _ _ _ _ _ hfailure => exact hfailure ▸ hsound

/-- Scanning files that succeeds has kept what every visit that has not failed keeps. -/
theorem kept_of_scanFiles {Q : List (Path × ScanRun) → ScanRun → Prop}
    {only : Option (List Location)} {last : ScanRun} {warnings : List Text}
    (hstart : Q [] { workspace := w })
    (hvisit : ∀ {done path run run'}, Q done run → Visited job path run run' →
      run'.failure = none → Q (done ++ [(path, run)]) run')
    (h : (job.scanFiles only).Yields w (last, warnings) w') :
    Q (job.visits only w) last ∧ w' = last.workspace := by
  have hwalk := @Walker.run_keeps _ ScanRun (job.request only) (·.workspace.disk.tree) job.visit
    (fun done run => run.failure = none → Q done run)
    (fun done path run hrun hsound =>
      hvisit (hrun ((visited job path run).failure_eq hsound)) (visited job path run) hsound)
    (.start (job.roots.map .ofLocation) w.directories) _ _ fun _ => hstart
  rw [List.nil_append] at hwalk
  obtain ⟨rfl, hfailure, hw'⟩ := last_of_scanFiles h
  exact ⟨hwalk hfailure, hw'⟩

theorem selection_of_inquiry {outcome : Except Failure (Option (List Location))}
    {inquiry : Git.Inquiry}
    (h : (if job.options.modifiedOnly = true then
      job.inquiry.changed w.git w.disk.tree job.gitRoot else (.ok none, job.inquiry)) =
        (outcome, inquiry)) : job.selection w = outcome := by
  rw [selection]
  split at h
  · rename_i hmodified
    rw [if_pos hmodified, h]
  · rename_i hmodified
    rw [if_neg hmodified]
    exact (Prod.mk.inj h).1

theorem opening_eq (job : ScanJob) (w : Workspace) :
    job.opening w = { w with sightings := {}, progress := (job.opening w).progress } := by
  rw [opening, announce]
  split <;> rfl

theorem yields_opening (job : ScanJob) (w : Workspace) :
    (job.announce ("  [....] Scanning ".toList ++ plural job.roots.length "root".toList)).Yields
      { w with sightings := {} } () (job.opening w) := by
  rw [opening, announce]
  split <;> rfl

/-- The files are gone to from the workspace in which a scan opens. -/
theorem yields_runWith {scan : Option (List Location) → Work (ScanRun × List Text)} :
    (job.runWith scan).Yields w report w' ↔ ∃ only inquiry last warnings v,
      (if job.options.modifiedOnly = true then
        job.inquiry.changed w.git w.disk.tree job.gitRoot else (.ok none, job.inquiry)) =
          (.ok only, inquiry) ∧
      (scan only).Yields (job.opening w) (last, warnings) v ∧
      (job.conclude last (inquiry.warnings ++ warnings)).Yields v report w' := by
  rcases hinquiry : (if job.options.modifiedOnly = true then
    job.inquiry.changed w.git w.disk.tree job.gitRoot else (Except.ok none, job.inquiry)) with
    ⟨outcome, inquiry⟩
  simp only [runWith, yields_bind, yields_modify, yields_get, yields_ofExcept]
  constructor
  · rintro ⟨_, _, rfl, _, _, ⟨rfl, rfl⟩, h⟩
    dsimp only at h
    rw [hinquiry] at h
    obtain ⟨only, _, ⟨rfl, rfl⟩, _, _, hopen, ⟨last, warnings⟩, v, hscan, h⟩ := h
    cases (yields_opening job w).symm.trans hopen
    exact ⟨only, inquiry, last, warnings, v, rfl, hscan, h⟩
  · rintro ⟨only, _, last, warnings, v, ⟨⟩, hscan, h⟩
    refine ⟨(), _, rfl, _, _, ⟨rfl, rfl⟩, ?_⟩
    dsimp only
    rw [hinquiry]
    exact ⟨only, _, ⟨rfl, rfl⟩, (), _, yields_opening job w, (last, warnings), v, hscan, h⟩

/-- What the report of a scan says, and what was done for it. -/
theorem yields_conclude {last : ScanRun} {warnings : List Text}
    (h : (job.conclude last warnings).Yields w report w') :
    ∃ v' progress, report.counts =
        report.checks.foldl (fun total check => total + .ofCheck check) last.total ∧
      report.cancelled = last.cancelled ∧ report.dryRun = job.options.dryRun ∧
      report.items = (last.scans.flatMap fun scan => scan.marks.map Mark.item).mergeSort
        ScanItem.order ∧
      (∀ scan ∈ last.scans, scan.warnings ⊆ report.warnings) ∧
      w' = { v' with progress := w'.progress } ∧
      (last.cancelled = true ∧ report.checks = [] ∧ v' = w ∨ last.cancelled = false ∧
        job.checkAnchors.Yields { w with progress } report.checks v') := by
  have hwarned : ∀ later : List Text, ∀ scan ∈ last.scans,
      scan.warnings ⊆ warnings ++ last.scans.flatMap FileScan.warnings ++ later := by
    intro later scan hscan warning hwarning
    have hmem := List.mem_flatMap_of_mem hscan hwarning
    exact List.mem_append_left _ (List.mem_append_right _ hmem)
  rw [conclude] at h
  dsimp only at h
  split at h
  · rename_i hcancelled
    rw [yields_bind] at h
    obtain ⟨checks, v', hnone, h⟩ := h
    obtain ⟨rfl, rfl⟩ := yields_pure.1 hnone
    obtain ⟨hclosed, u, rfl⟩ := yields_close h
    exact ⟨_, [], rfl, rfl, rfl, rfl, hwarned _, hclosed, .inl ⟨hcancelled, rfl, rfl⟩⟩
  · rename_i hcancelled
    rw [yields_bind] at h
    obtain ⟨_, v, hannounce, h⟩ := h
    rw [yields_bind] at h
    obtain ⟨checks, v', hchecks, h⟩ := h
    obtain ⟨hclosed, u, rfl⟩ := yields_close h
    rw [yields_announce hannounce] at hchecks
    exact ⟨v', _, rfl, rfl, rfl, rfl, hwarned _, hclosed, .inr ⟨by simpa using hcancelled, hchecks⟩⟩

/-- What every visit keeps holds when the anchors are checked; after that only the progress is
reported. -/
theorem kept_of_run {Q : List (Path × ScanRun) → ScanRun → Prop}
    (hstart : Q [] { workspace := job.opening w })
    (hvisit : ∀ {done path run run'}, Q done run → Visited job path run run' →
      run'.failure = none → Q (done ++ [(path, run)]) run')
    (h : job.run.Yields w report w') :
    ∃ last warnings, Q (job.walked w) last ∧
      (job.conclude last warnings).Yields last.workspace report w' := by
  rw [run_eq_runWith, yields_runWith] at h
  obtain ⟨only, inquiry, last, warnings, v, hinquiry, hscan, h⟩ := h
  obtain ⟨hkept, rfl⟩ := kept_of_scanFiles hstart hvisit hscan
  rw [walked, selection_of_inquiry hinquiry]
  exact ⟨last, _, hkept, h⟩

/-- What a scan keeps holds, unless something has failed, when the anchors are checked. -/
theorem VisitInvariant.of_run (hinv : job.VisitInvariant w P)
    (h : job.run.Yields w report w') (hsound : ¬report.counts.Failed) :
    ∃ total v v' checks progress progress', P (job.walked w) total v ∧
      report.counts.tasksCreated = total.tasksCreated ∧
      report.counts.filesWritten = total.filesWritten ∧ w' = { v' with progress := progress' } ∧
      (report.cancelled = true ∧ v' = v ∨ report.cancelled = false ∧
        job.checkAnchors.Yields { v with progress } checks v') := by
  have hstart : Going P [] { workspace := job.opening w } := ⟨.refl {}, .inr hinv.start⟩
  obtain ⟨last, warnings, hgoing, h⟩ := kept_of_run hstart
    (fun hgoing hvisited hfailure => hgoing.visit hinv hvisited hfailure) h
  obtain ⟨v', progress, hcounts, hcancelled, -, -, -, hw', hchecks⟩ := yields_conclude h
  obtain ⟨hunresolved, hwriteFailures, hcreated, hwritten⟩ :=
    counts_of_checks report.checks last.total
  rw [← hcounts] at hunresolved hwriteFailures hcreated hwritten
  have hlast : ¬last.total.Failed := fun hfailed =>
    hsound (hfailed.imp (hunresolved ▸ ·) (hwriteFailures ▸ ·))
  refine ⟨last.total, last.workspace, v', report.checks, progress, w'.progress,
    hgoing.holds.resolve_left hlast, hcreated, hwritten, hw', ?_⟩
  rw [hcancelled]
  exact hchecks.imp (fun h => ⟨h.1, h.2.2⟩) id

theorem Invariant.of_run {P : List (Text × List Candidate) → Counts → Workspace → Prop}
    (hinv : job.Invariant w P)
    (h : job.run.Yields w report w') (hsound : ¬report.counts.Failed) :
    ∃ total v v' checks progress progress', P (job.scannedFiles w) total v ∧
      report.counts.tasksCreated = total.tasksCreated ∧
      report.counts.filesWritten = total.filesWritten ∧ w' = { v' with progress := progress' } ∧
      (report.cancelled = true ∧ v' = v ∨ report.cancelled = false ∧
        job.checkAnchors.Yields { v with progress } checks v') :=
  hinv.ofVisits.of_run h hsound

/-- A scan that is not cancelled succeeds when its files are gone to and its anchors checked. -/
theorem exists_yields_runWith {scan : Option (List Location) → Work (ScanRun × List Text)}
    {last : ScanRun} {warnings : List Text} {checks : List AnchorVerdict}
    (hall : job.options.modifiedOnly = false) (hquiet : job.options.showProgress = false)
    (hscan : (scan none).Yields (job.opening w) (last, warnings) last.workspace)
    (hcancelled : last.cancelled = false)
    (hchecks : job.checkAnchors.Yields last.workspace checks w') :
    ∃ report, (job.runWith scan).Yields w report w' ∧ report.cancelled = false ∧
      report.counts = checks.foldl (fun total check => total + .ofCheck check) last.total ∧
      report.items = (last.scans.flatMap fun scan => scan.marks.map Mark.item).mergeSort
        ScanItem.order ∧
      report.warnings = job.inquiry.warnings ++ warnings ++ last.scans.flatMap FileScan.warnings ++
        w'.sightings.warnings := by
  have hannounce : ∀ line v, (job.announce line).Yields v () v := by
    intro line v
    rw [announce, hquiet]
    rfl
  apply Exists.intro
  constructor
  · rw [yields_runWith]
    refine ⟨none, job.inquiry, last, warnings, _, by simp [hall], hscan, ?_⟩
    simp only [conclude]
    rw [hcancelled, if_neg Bool.false_ne_true, yields_bind]
    refine ⟨(), _, hannounce _ _, ?_⟩
    rw [yields_bind]
    refine ⟨_, _, hchecks, ?_⟩
    rw [yields_bind]
    refine ⟨(), _, hannounce _ _, ?_⟩
    rw [yields_bind]
    exact ⟨_, _, yields_get.2 ⟨rfl, rfl⟩, yields_pure.2 ⟨rfl, rfl⟩⟩
  · exact ⟨rfl, rfl, rfl, rfl⟩

end ScanJob

end TodoTracker
