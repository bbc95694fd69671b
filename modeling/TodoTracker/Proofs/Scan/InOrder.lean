import TodoTracker.Proofs.Scan.Progress

/-!
# Scanning files in an order

A scan of files in a given order does what a scan does that finds them by walking: the walk only
says which files come when. What is done when all of them were visited is put together from what is
done for each of them.
-/

set_option autoImplicit false

namespace TodoTracker

open Work

/-- A run that has come to an end, or has failed. -/
def ScanRun.Over (run : ScanRun) : Prop :=
  run.failure ≠ none ∨ run.cancelled = true ∨ ∃ scan ∈ run.scans, scan.counts.Failed

namespace ScanJob

variable {job : ScanJob} {files paths : List Path} {path : Path} {run last : ScanRun}
  {done : List (Path × Option FileScan)} {warnings : List Text} {w w' : Workspace}
  {report : ScanReport}

/-- Scan files in turn. -/
def scanInOrder (job : ScanJob) (files : List Path) : Work (ScanRun × List Text) := do
  let run := Walker.inTurn job.visit files { workspace := ← get }
  set run.workspace
  match run.failure with
  | some e => throw e
  | none => return (run, [])

/-- A scan that goes to files in a given order. -/
def runInOrder (job : ScanJob) (files : List Path) : Work ScanReport :=
  job.runWith fun _ => job.scanInOrder files

theorem yields_scanInOrder :
    (job.scanInOrder files).Yields w (last, warnings) w' ↔
      last = Walker.inTurn job.visit files { workspace := w } ∧ last.failure = none ∧
        warnings = [] ∧ w' = last.workspace := by
  simp only [scanInOrder, yields_bind, yields_get, yields_set]
  constructor
  · rintro ⟨_, _, ⟨rfl, rfl⟩, _, _, rfl, h⟩
    split at h
    · exact absurd h not_yields_throw
    · rename_i hfailure
      obtain ⟨hsame, rfl⟩ := yields_pure.1 h
      cases hsame
      exact ⟨rfl, hfailure, rfl, rfl⟩
  · rintro ⟨rfl, hfailure, rfl, rfl⟩
    refine ⟨_, _, ⟨rfl, rfl⟩, ⟨⟩, _, rfl, ?_⟩
    rw [hfailure]
    exact yields_pure.2 ⟨rfl, rfl⟩

/-- The warnings of the walk are only passed on. -/
theorem conclude_of_warnings (h : (job.conclude last warnings).Yields w report w')
    (others : List Text) : ∃ report', (job.conclude last others).Yields w report' w' ∧
      report' = { report with warnings := report'.warnings } := by
  have hclose : ∀ {line : Text} {close : Workspace → ScanReport} {v : Workspace},
      Yields (do job.announce line; return close (← get)) v report w' →
      ∃ u, report = close u ∧ ∀ other : Workspace → ScanReport,
        Yields (do job.announce line; return other (← get)) v (other u) w' := by
    intro line close v h
    simp only [yields_bind, yields_get, yields_pure] at h ⊢
    obtain ⟨_, u, hannounce, _, _, ⟨rfl, rfl⟩, rfl, rfl⟩ := h
    exact ⟨_, rfl, fun _ => ⟨(), _, hannounce, _, _, ⟨rfl, rfl⟩, rfl, rfl⟩⟩
  simp only [conclude] at h ⊢
  split at h
  · rename_i hcancelled
    rw [if_pos hcancelled]
    rw [yields_bind] at h
    obtain ⟨checks, v, hchecks, h⟩ := h
    obtain ⟨u, rfl, hyields⟩ := hclose h
    exact ⟨_, yields_bind.2 ⟨checks, v, hchecks, hyields _⟩, rfl⟩
  · rename_i hcancelled
    rw [if_neg hcancelled]
    rw [yields_bind] at h
    obtain ⟨_, u, hannounce, h⟩ := h
    rw [yields_bind] at h
    obtain ⟨checks, v, hchecks, h⟩ := h
    obtain ⟨u', rfl, hyields⟩ := hclose h
    exact ⟨_, yields_bind.2 ⟨_, u, hannounce, yields_bind.2 ⟨checks, v, hchecks, hyields _⟩⟩, rfl⟩

/-- A scan goes to its files in the order of the walk. -/
theorem runInOrder_of_run (h : job.run.Yields w report w') :
    ∃ report', (job.runInOrder ((job.walked w).map Prod.fst)).Yields w report' w' ∧
      report' = { report with warnings := report'.warnings } := by
  rw [run_eq_runWith, yields_runWith] at h
  obtain ⟨only, inquiry, last, warnings, v, hinquiry, hscan, hconclude⟩ := h
  obtain ⟨hlast, hfailure, rfl⟩ := last_of_scanFiles hscan
  have hwalked : job.walked w = job.visits only (job.opening w) := by
    rw [walked, selection_of_inquiry hinquiry]
  obtain ⟨report', hconclude', hsame⟩ := conclude_of_warnings hconclude (inquiry.warnings ++ [])
  refine ⟨report', ?_, hsame⟩
  rw [runInOrder, yields_runWith]
  refine ⟨only, inquiry, last, [], _, hinquiry, ?_, hconclude'⟩
  rw [yields_scanInOrder, hwalked, visits, ← Walker.run_state]
  exact ⟨hlast, hfailure, rfl, rfl⟩

section Turns

/-- What a visit may come to: the scan is cancelled, the path has no grammar, its file is scanned,
or something fails for good. -/
inductive Came (job : ScanJob) (path : Path) (run : ScanRun) : Bool × ScanRun → Prop
  | cancelled {go : Bool} {queries : Nat} :
      Came job path run (go, { run with queries, cancelled := true })
  | passed {queries : Nat} (hgrammar : Grammar.ofPath? path = none) :
      Came job path run (true, { run with queries })
  | scanned {queries : Nat} {grammar : Grammar} {scan : FileScan} {workspace : Workspace}
      (hgrammar : Grammar.ofPath? path = some grammar)
      (hvisit : (job.visitFile path grammar).Yields run.workspace scan workspace) :
      Came job path run (true, { run with queries, workspace, scans := run.scans ++ [scan] })
  | failed {queries : Nat} {workspace : Workspace} {failure : Failure} :
      Came job path run
        (true, { run with queries, workspace, failure := run.failure.or (some failure) })

theorem came (job : ScanJob) (path : Path) (run : ScanRun) :
    Came job path run (job.visit path run) := by
  rw [visit]
  dsimp only
  split
  · exact .cancelled
  · split
    · rename_i hgrammar
      exact .passed hgrammar
    · rename_i grammar hgrammar
      split
      · exact .cancelled
      · rw [scanInto]
        dsimp only
        rcases hrun : (job.visitFile path grammar).run run.workspace with ⟨e | scan, v⟩
        · exact .failed
        · exact .scanned hgrammar hrun

theorem Came.over {outcome : Bool × ScanRun} (h : Came job path run outcome) (hover : run.Over) :
    outcome.2.Over := by
  cases h with
  | cancelled => exact .inr (.inl rfl)
  | passed => exact hover
  | scanned =>
    refine hover.imp id (Or.imp id ?_)
    rintro ⟨scan, hscan, hfailed⟩
    exact ⟨scan, List.mem_append_left _ hscan, hfailed⟩
  | failed =>
    refine .inl ?_
    cases run.failure <;> simp

theorem over_of_inTurn (hover : run.Over) : (Walker.inTurn job.visit files run).Over := by
  induction files generalizing run with
  | nil => exact hover
  | cons path files ih =>
    have hnext := (came job path run).over hover
    rw [Walker.inTurn]
    split
    · rename_i next hvisit
      rw [hvisit] at hnext
      exact ih hnext
    · rename_i last hvisit
      rw [hvisit] at hnext
      exact hnext

/-- Visiting files in turn, without an end before the last one, has scanned all of them. -/
theorem progress_of_inTurn (hcreate : job.options.createTasks = false)
    (hdry : job.reconciler.dryRun = job.options.dryRun) (horderly : job.Orderly w files)
    (hprogress : job.Progress files w done run.workspace)
    (hscans : run.scans.map FileScan.bare = done.filterMap Prod.snd)
    (hdone : ∀ d ∈ done, d.1 ∈ files) (hpaths : ∀ path ∈ paths, path ∈ files)
    (hfresh : ∀ path ∈ paths, job.Fresh w done path)
    (hdistinct : paths.Pairwise fun p q => ∀ file,
      w.disk.tree.displayPath p job.repo = .ok file → w.disk.tree.displayPath q job.repo ≠ .ok file)
    (hend : ¬(Walker.inTurn job.visit paths run).Over) :
    ∃ done', done'.map Prod.fst = done.map Prod.fst ++ paths ∧
      job.Progress files w done' (Walker.inTurn job.visit paths run).workspace ∧
      (Walker.inTurn job.visit paths run).scans.map FileScan.bare = done'.filterMap Prod.snd := by
  induction paths generalizing run done with
  | nil => exact ⟨done, (List.append_nil _).symm, hprogress, hscans⟩
  | cons path paths ih =>
    have hmem := hpaths path List.mem_cons_self
    have hfirst := hfresh path List.mem_cons_self
    obtain ⟨hapart, hdistinct⟩ := List.pairwise_cons.1 hdistinct
    have hnext : ∀ outcome, ∀ d ∈ done ++ [(path, outcome)], d.1 ∈ files := by
      intro outcome d hd
      rcases List.mem_append.1 hd with hold | hnew
      · exact hdone d hold
      · rw [List.mem_singleton.1 hnew]
        exact hmem
    have hlater : ∀ outcome, ∀ other ∈ paths, job.Fresh w (done ++ [(path, outcome)]) other := by
      intro outcome other hother d hd file hfile hsame
      rcases List.mem_append.1 hd with hold | hnew
      · exact hfresh other (List.mem_cons_of_mem _ hother) d hold file hfile hsame
      · rw [List.mem_singleton.1 hnew] at hsame
        exact hapart other hother file hsame hfile
    have hrest : ∀ q ∈ paths, q ∈ files := fun q hq => hpaths q (List.mem_cons_of_mem _ hq)
    have hcame := came job path run
    rw [Walker.inTurn] at hend ⊢
    generalize job.visit path run = outcome at hcame hend ⊢
    cases hcame with
    | @cancelled go queries =>
      have hover : ({ run with queries, cancelled := true } : ScanRun).Over := .inr (.inl rfl)
      cases go with
      | false => exact absurd hover hend
      | true => exact absurd (over_of_inTurn hover) hend
    | @passed queries hgrammar =>
      obtain ⟨done', hnames, hall⟩ := @ih { run with queries } _ (hprogress.pass hgrammar)
        (by simpa using hscans) (hnext none) hrest (hlater none) hdistinct hend
      exact ⟨done', by simpa using hnames, hall⟩
    | @scanned queries grammar scan workspace hgrammar hvisit =>
      have hsound : ¬scan.counts.Failed := fun hfailed =>
        hend (over_of_inTurn (.inr (.inr ⟨scan, by simp, hfailed⟩)))
      obtain ⟨done', hnames, hall⟩ := ih
        (hprogress.visit horderly hcreate hdry hdone hmem hfirst hgrammar hvisit hsound)
        (by simp [hscans]) (hnext _) hrest (hlater _) hdistinct hend
      exact ⟨done', by simpa using hnames, hall⟩
    | failed =>
      refine absurd (over_of_inTurn (.inl ?_)) hend
      cases run.failure <;> simp

end Turns

end ScanJob

end TodoTracker
