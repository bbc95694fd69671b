import TodoTracker.Proofs.Scan.Apart
import TodoTracker.Proofs.Scan.Effect

/-!
# How far a scan has come

Each file of a scan is found as it was when the scan began: the files before it had other names,
were written at other places, and noted sightings in other files. So what a scan has done when it
has come to some file is put together from what it does for each file alone.
-/

set_option autoImplicit false

namespace TodoTracker

open Work Reconciler

/-- A scan without its warnings. -/
def FileScan.bare (scan : FileScan) : FileScan := { scan with warnings := [] }

theorem FileScan.Agrees.bare {scan scan' : FileScan} (h : scan.Agrees scan') :
    scan.bare = scan'.bare := by
  rw [FileScan.bare, FileScan.bare, h.marks, h.counts, h.edits]

namespace ScanJob

variable {job : ScanJob} {files : List Path} {path : Path} {file text : Text} {grammar : Grammar}
  {s : FileScan} {outcome outcome' : Option FileScan} {done : List (Path × Option FileScan)}
  {w v v' : Workspace}

/-- The sightings in a file, if it can be scanned. -/
def sightedAt (job : ScanJob) (w : Workspace) (path : Path) : List (Text × Anchor) :=
  match Grammar.ofPath? path, w.disk.tree.displayPath path job.repo, w.disk.tree.readText path with
  | some grammar, .ok file, .ok text =>
    sightingsIn file (job.spots w.knows (job.scanner.scan text.contents grammar))
  | _, _, _ => []

/-- Where a file is and what its text becomes when it is scanned, if it is written. -/
def changeAt (job : ScanJob) (w : Workspace) (path : Path) (scan : FileScan) :
    Option (Location × Text) :=
  match w.disk.tree.find path, w.disk.tree.readText path with
  | .ok (location, _), .ok text => (job.newText text scan).map (location, ·)
  | _, _ => none

theorem sightedAt_file {sighting : Text × Anchor} (h : sighting ∈ job.sightedAt w path) :
    w.disk.tree.displayPath path job.repo = .ok sighting.2.file := by
  rw [sightedAt] at h
  split at h
  · rename_i file text _ hfile _
    obtain ⟨n, -, hanchor⟩ := mem_sightingsIn.1 h
    rw [hfile, hanchor]
  · cases h

theorem reads_of_changeAt {scan : FileScan} {change : Location × Text}
    (h : job.changeAt w path scan = some change) :
    ∃ entry text, w.disk.tree.find path = .ok (change.1, entry) ∧
      w.disk.tree.readText path = .ok text := by
  rw [changeAt] at h
  split at h
  · rename_i location entry text hfind htext
    obtain ⟨new, -, rfl⟩ := Option.map_eq_some_iff.1 h
    exact ⟨entry, text, hfind, htext⟩
  · cases h

/-- A workspace where a file is found as in another one, and the same is known about its keys. -/
structure Sees (job : ScanJob) (w v : Workspace) (path : Path) : Prop where
  knows : v.knows = w.knows
  same : w.disk.tree.SameAt v.disk.tree path
  still : v.Undisturbed path
  mine : ∀ file, w.disk.tree.displayPath path job.repo = .ok file → ∀ key after,
    v.anchors key = .ok after → ∃ before, w.anchors key = .ok before ∧
      inFile file after = inFile file before

theorem Sees.displayPath (h : job.Sees w v path) :
    v.disk.tree.displayPath path job.repo = w.disk.tree.displayPath path job.repo := by
  rw [FileTree.displayPath, FileTree.displayPath, h.same.resolve]

theorem Sees.readText (h : job.Sees w v path) :
    v.disk.tree.readText path = w.disk.tree.readText path :=
  h.same.agreeAt.readText

/-- What a scan that comes to a path does, warnings apart: nothing if the path has no grammar. -/
inductive Outcome (job : ScanJob) (w : Workspace) (path : Path) : Option FileScan → Prop
  | passed (hgrammar : Grammar.ofPath? path = none) : Outcome job w path none
  | scanned {grammar : Grammar} {s : FileScan} {v v' : Workspace}
      (hgrammar : Grammar.ofPath? path = some grammar) (hsees : job.Sees w v path)
      (hvisit : (job.visitFile path grammar).Yields v s v') (hsound : ¬s.counts.Failed) :
      Outcome job w path (some s.bare)

/-- There is one outcome for a path. -/
theorem Outcome.unique (hcreate : job.options.createTasks = false) (h : job.Outcome w path outcome)
    (h' : job.Outcome w path outcome') : outcome = outcome' := by
  cases h with
  | passed hgrammar =>
    cases h' with
    | passed => rfl
    | scanned hgrammar' =>
      rw [hgrammar] at hgrammar'
      cases hgrammar'
  | scanned hgrammar hsees hvisit hsound =>
    cases h' with
    | passed hgrammar' =>
      rw [hgrammar] at hgrammar'
      cases hgrammar'
    | scanned hgrammar' hsees' hvisit' hsound' =>
      rw [hgrammar] at hgrammar'
      cases hgrammar'
      refine congrArg some (FileScan.Agrees.bare ?_)
      refine visitFile_unique hcreate (hsees'.knows.trans hsees.knows.symm)
        (hsees'.displayPath.trans hsees.displayPath.symm)
        (hsees'.readText.trans hsees.readText.symm) hsees.still hsees'.still ?_ hvisit hvisit'
        hsound hsound'
      intro file hfile key as as' has has'
      rw [hsees.displayPath] at hfile
      obtain ⟨before, hbefore, hmine⟩ := hsees.mine file hfile key as has
      obtain ⟨before', hbefore', hmine'⟩ := hsees'.mine file hfile key as' has'
      rw [hbefore] at hbefore'
      cases hbefore'
      exact hmine.trans hmine'.symm

/-- The changes of the files that a scan has come to. -/
def changes (job : ScanJob) (w : Workspace) (done : List (Path × Option FileScan)) :
    List (Location × Text) :=
  done.filterMap fun d => d.2.bind (job.changeAt w d.1)

/-- The sightings in the files that a scan has come to. -/
def sighted (job : ScanJob) (w : Workspace) (done : List (Path × Option FileScan)) :
    List (Text × Anchor) :=
  done.flatMap fun d => job.sightedAt w d.1

/-- What a scan that began in a workspace has done when it has come to some files. -/
structure Progress (job : ScanJob) (files : List Path) (w : Workspace)
    (done : List (Path × Option FileScan)) (v : Workspace) : Prop where
  outcomes : ∀ d ∈ done, job.Outcome w d.1 d.2
  named : ∀ d ∈ done, ∀ file, w.disk.tree.displayPath d.1 job.repo = .ok file →
    ∀ scan ∈ d.2, scan.Named file
  noted : Noted job.options.dryRun (job.sighted w done) w v
  disk : Disk.ScannedFrom w.store.path files w.disk v.disk
  found : ∀ path, w.Apart files path → v.disk.tree.find path =
      (w.disk.tree.find path).map (FileTree.afterChanges (job.changes w done)) ∧
    v.disk.tree.resolve path = w.disk.tree.resolve path

theorem Progress.start (job : ScanJob) (files : List Path) (w : Workspace) :
    job.Progress files w [] w where
  outcomes _ hd := absurd hd List.not_mem_nil
  named _ hd := absurd hd List.not_mem_nil
  noted := .of_eq rfl rfl
  disk := .start
  found path _ := by
    refine ⟨?_, rfl⟩
    cases w.disk.tree.find path <;> rfl

theorem Progress.knows (h : job.Progress files w done v) : v.knows = w.knows := by
  funext key
  rw [Bool.eq_iff_iff, Workspace.knows_eq_true_iff, Workspace.knows_eq_true_iff, h.noted.keys]

/-- The files of a scan: their names are plain and different, and none of them is the task file. -/
structure Orderly (job : ScanJob) (w : Workspace) (files : List Path) : Prop where
  plain : ∀ path ∈ files, ∀ file, w.disk.tree.displayPath path job.repo = .ok file →
    Anchor.IsPlain file
  undotted : ∀ path ∈ files, FileTree.hereName ∉ path.names
  apart : ∀ path ∈ files, w.Apart files path
  distinct : files.Pairwise fun path other => ∀ file,
    w.disk.tree.displayPath path job.repo = .ok file →
      w.disk.tree.displayPath other job.repo ≠ .ok file

/-- A path whose file is none of those that a scan has come to. -/
def Fresh (job : ScanJob) (w : Workspace) (done : List (Path × Option FileScan)) (path : Path) :
    Prop :=
  ∀ d ∈ done, ∀ file, w.disk.tree.displayPath path job.repo = .ok file →
    w.disk.tree.displayPath d.1 job.repo ≠ .ok file

/-- Files that are still to come have not been written. -/
theorem Progress.sameAt (h : job.Progress files w done v) (horderly : job.Orderly w files)
    (hdone : ∀ d ∈ done, d.1 ∈ files) (hpath : path ∈ files) (hfresh : job.Fresh w done path)
    (hfile : w.disk.tree.displayPath path job.repo = .ok file) :
    w.disk.tree.SameAt v.disk.tree path := by
  obtain ⟨hfind, hresolve⟩ := h.found path (horderly.apart path hpath)
  refine ⟨?_, hresolve⟩
  rw [hfind]
  cases hwas : w.disk.tree.find path with
  | error flaw => rfl
  | ok found =>
    obtain ⟨location, entry⟩ := found
    refine congrArg Except.ok (FileTree.afterChanges_of_ne ?_)
    rintro change hchange rfl
    obtain ⟨d, hd, hat⟩ := List.mem_filterMap.1 hchange
    obtain ⟨scan, -, hat⟩ := Option.bind_eq_some_iff.1 hat
    obtain ⟨entry', text, hplace, htext⟩ := reads_of_changeAt hat
    exact hfresh d hd file hfile (FileTree.displayPath_of_find (horderly.undotted path hpath)
      (horderly.undotted d.1 (hdone d hd)) hwas hplace htext hfile)

theorem Progress.sees (h : job.Progress files w done v) (horderly : job.Orderly w files)
    (hdone : ∀ d ∈ done, d.1 ∈ files) (hpath : path ∈ files) (hfresh : job.Fresh w done path)
    (hfile : w.disk.tree.displayPath path job.repo = .ok file) : job.Sees w v path := by
  refine ⟨h.knows, h.sameAt horderly hdone hpath hfresh hfile,
    (horderly.apart path hpath).undisturbed h.noted.path h.disk, ?_⟩
  intro name hname key after hafter
  obtain ⟨before, hbefore, hsame, -⟩ := h.noted.anchors key after hafter
  have hnone : lastIn (job.sighted w done) key name = none := by
    refine lastIn_eq_none ?_ key
    rintro sighting hmem rfl
    obtain ⟨d, hd, hat⟩ := List.mem_flatMap.1 hmem
    exact hfresh d hd _ hname (sightedAt_file hat)
  refine ⟨before, hbefore, ?_⟩
  rw [← inFile_unsighted hnone after, hsame, inFile_unsighted hnone before]

theorem sighted_append (job : ScanJob) (w : Workspace) (done : List (Path × Option FileScan))
    (d : Path × Option FileScan) :
    job.sighted w (done ++ [d]) = job.sighted w done ++ job.sightedAt w d.1 := by
  simp [sighted]

theorem changes_append (job : ScanJob) (w : Workspace) (done : List (Path × Option FileScan))
    (d : Path × Option FileScan) :
    job.changes w (done ++ [d]) =
      job.changes w done ++ (d.2.bind (job.changeAt w d.1)).toList := by
  rw [changes, List.filterMap_append, ← changes]
  cases hchange : d.2.bind (job.changeAt w d.1) <;> simp [hchange]

theorem Progress.append (h : job.Progress files w done v) {d : Path × Option FileScan}
    (houtcome : job.Outcome w d.1 d.2)
    (hnamed : ∀ file, w.disk.tree.displayPath d.1 job.repo = .ok file →
      ∀ scan ∈ d.2, scan.Named file)
    (hnoted : Noted job.options.dryRun (job.sightedAt w d.1) v v')
    (hdisk : Disk.ScannedFrom w.store.path files w.disk v'.disk)
    (hfound : ∀ path, w.Apart files path → v'.disk.tree.find path =
        (v.disk.tree.find path).map
          (FileTree.afterChanges (d.2.bind (job.changeAt w d.1)).toList) ∧
      v'.disk.tree.resolve path = v.disk.tree.resolve path) :
    job.Progress files w (done ++ [d]) v' where
  outcomes d' hd' := by
    rcases List.mem_append.1 hd' with hold | hnew
    · exact h.outcomes d' hold
    · rw [List.mem_singleton.1 hnew]
      exact houtcome
  named d' hd' := by
    rcases List.mem_append.1 hd' with hold | hnew
    · exact h.named d' hold
    · rw [List.mem_singleton.1 hnew]
      exact hnamed
  noted := sighted_append job w done d ▸ h.noted.trans hnoted
  disk := hdisk
  found path hapart := by
    obtain ⟨hfind, hresolve⟩ := h.found path hapart
    obtain ⟨hfind', hresolve'⟩ := hfound path hapart
    refine ⟨?_, hresolve'.trans hresolve⟩
    rw [hfind', hfind, changes_append]
    cases w.disk.tree.find path with
    | error flaw => rfl
    | ok found => exact congrArg Except.ok (FileTree.afterChanges_append _ _ found).symm

theorem find_map_nil (found : Except FileFlaw (Location × Entry)) :
    found.map (FileTree.afterChanges []) = found := by
  cases found <;> rfl

/-- A path without a grammar is passed by. -/
theorem Progress.pass (h : job.Progress files w done v)
    (hgrammar : Grammar.ofPath? path = none) : job.Progress files w (done ++ [(path, none)]) v := by
  have hnone : job.sightedAt w path = [] := by
    rw [sightedAt, hgrammar]
  refine h.append (.passed hgrammar) (fun _ _ _ hscan => absurd hscan (by simp)) ?_ h.disk ?_
  · rw [hnone]
    exact .of_eq rfl rfl
  · exact fun path _ => ⟨(find_map_nil _).symm, rfl⟩

/-- A file is scanned as it was found when the scan began. -/
theorem Progress.visit (h : job.Progress files w done v) (horderly : job.Orderly w files)
    (hcreate : job.options.createTasks = false) (hdry : job.reconciler.dryRun = job.options.dryRun)
    (hdone : ∀ d ∈ done, d.1 ∈ files) (hpath : path ∈ files) (hfresh : job.Fresh w done path)
    (hgrammar : Grammar.ofPath? path = some grammar)
    (hvisit : (job.visitFile path grammar).Yields v s v') (hsound : ¬s.counts.Failed) :
    job.Progress files w (done ++ [(path, some s.bare)]) v' := by
  have happly := horderly.apart path hpath
  obtain ⟨file, hdisplay, hcases⟩ := yields_visitFile hvisit
  have hfile : w.disk.tree.displayPath path job.repo = .ok file := by
    rw [← hdisplay, FileTree.displayPath, FileTree.displayPath, (h.found path happly).2]
  have hsees := h.sees horderly hdone hpath hfresh hfile
  have houtcome : job.Outcome w path (some s.bare) := .scanned hgrammar hsees hvisit hsound
  cases hread : w.disk.tree.readText path with
  | error e =>
    have hskip : v' = v ∧ s.marks = [] := by
      rcases hcases with ⟨_, warning, -, hsame, rfl⟩ | ⟨_, _, _, _, _, hok, -⟩
      · exact ⟨hsame, rfl⟩
      · rw [hsees.readText, hread] at hok
        cases hok
    obtain ⟨rfl, hmarks⟩ := hskip
    have hnone : job.sightedAt w path = [] := by
      rw [sightedAt, hread]
      simp
    have hstill : (some s.bare).bind (job.changeAt w path) = none := by
      rw [Option.bind_some, changeAt, hread]
      simp
    refine h.append houtcome ?_ ?_ h.disk ?_
    · rintro name - scan ⟨⟩ mark hmark
      exact absurd (hmarks ▸ hmark) List.not_mem_nil
    · rw [hnone]
      exact .of_eq rfl rfl
    · rw [hstill]
      exact fun path _ => ⟨(find_map_nil _).symm, rfl⟩
  | ok text =>
    have htext := hsees.readText.trans hread
    have heffect := effect_of_visitFile hcreate hdry (horderly.plain path hpath file hfile)
      hsees.still (hsees.displayPath.trans hfile) htext hvisit hsound
    have hfound : job.sightedAt w path = sightingsIn file
        (job.spots v.knows (job.scanner.scan text.contents grammar)) := by
      rw [sightedAt, hgrammar, hfile, hread, h.knows]
    obtain ⟨u, disk, calls, hsaved, rfl, hwritten⟩ := heffect.written
    obtain ⟨location, bytes, hfind⟩ := FileTree.find_of_readText hread
    have hchange : (some s.bare).bind (job.changeAt w path) =
        (job.newText text s).map (location, ·) := by
      rw [Option.bind_some, changeAt, hfind, hread]
      rfl
    have hsavedfrom : Disk.ScannedFrom w.store.path files w.disk u.disk :=
      .saved h.disk (h.noted.path ▸ hsaved.disk)
    have hkept : ∀ other, w.Apart files other → v.disk.tree.SameAt u.disk.tree other :=
      fun other hother => hother.saved h.noted.path h.disk hsaved
    have hplace : u.disk.tree.find path = .ok (location, .file bytes) := by
      rw [(hkept path happly).find, hsees.same.find, hfind]
    refine h.append houtcome ?_ (hfound ▸ heffect.noted) ?_ ?_
    · rintro name hname scan ⟨⟩
      rw [hfile] at hname
      cases hname
      exact heffect.named
    · dsimp only at hwritten ⊢
      split at hwritten
      · rw [hwritten]
        exact hsavedfrom
      · exact .written hsavedfrom hpath hwritten
    · rw [hchange]
      intro other hother
      dsimp only at hwritten ⊢
      cases hnew : job.newText text s with
      | none =>
        rw [hnew] at hwritten
        rw [hwritten]
        exact ⟨(hkept other hother).find.trans (find_map_nil _).symm, (hkept other hother).resolve⟩
      | some new =>
        rw [hnew] at hwritten
        obtain ⟨hthere, hresolve⟩ := Disk.sameAt_of_write (horderly.undotted path hpath) hplace
          hwritten other
        rw [hthere, hresolve, (hkept other hother).find]
        exact ⟨rfl, (hkept other hother).resolve⟩

end ScanJob

end TodoTracker
