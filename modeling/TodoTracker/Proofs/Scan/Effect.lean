import TodoTracker.Proofs.Scan.Outcome

/-!
# What a visit leaves behind

A visit that has not failed notes the sightings of its file and then writes the new text of the
file, if there is one; the tasks are saved in between. All items of the file have its name.
-/

set_option autoImplicit false

namespace TodoTracker

open Work

namespace FileScan

variable {scan : FileScan} {file : Text}

/-- All items of a scan are those of a file with a certain name. -/
def Named (scan : FileScan) (file : Text) : Prop := ∀ mark ∈ scan.marks, mark.item.file = file

theorem Named.addMark (h : scan.Named file) {item : ScanItem} (hitem : item.file = file)
    (followUp : FollowUp) : (scan.addMark item followUp).Named file := by
  intro mark hmark
  rcases List.mem_append.1 hmark with hold | hnew
  · exact h mark hold
  · rw [List.mem_singleton.1 hnew]
    exact hitem

theorem Named.map {scan' : FileScan} (h : scan.Named file) {f : Mark → Mark}
    (hmarks : scan'.marks = scan.marks.map f) (hf : ∀ mark, (f mark).item.file = mark.item.file) :
    scan'.Named file := by
  intro mark hmark
  rw [hmarks] at hmark
  obtain ⟨old, hold, rfl⟩ := List.mem_map.1 hmark
  exact (hf old).trans (h old hold)

theorem Named.confirmed (h : scan.Named file) (key : Text) (best : Mark) (result : Confirmation) :
    (scan.confirmed key best result).Named file := by
  refine h.map rfl fun mark => ?_
  split
  · rfl
  · split
    · rw [Mark.anchored]
      dsimp only
      split
      · rfl
      · split <;> rfl
    · rfl

theorem Named.previewed (h : scan.Named file) (preview : List LineChange) :
    (scan.previewed preview).Named file := by
  refine h.map rfl fun mark => ?_
  split
  · rfl
  · split <;> rfl

theorem Named.dryRun (h : scan.Named file) : scan.dryRun.Named file := by
  refine h.map rfl fun mark => ?_
  split <;> rfl

theorem Agrees.named {scan' : FileScan} (h : scan.Agrees scan') (hnamed : scan.Named file) :
    scan'.Named file := by
  rw [Named, h.marks]
  exact hnamed

end FileScan

namespace ScanJob

variable {job : ScanJob} {file text : Text} {path : Path} {grammar : Grammar}
  {scan s : FileScan} {c : Candidate} {candidates : List Candidate} {keys : List Text}
  {w w' : Workspace}

theorem named_of_act {decision : Decision} (hcreate : decision.action ≠ .create)
    (h : (job.act file path scan c decision).Yields w s w') (hnamed : scan.Named file) :
    s.Named file := by
  rw [act] at h
  cases haction : decision.action with
  | create => exact absurd haction hcreate
  | confirm =>
    cases hcarried : c.carried <;>
    · rw [haction, hcarried] at h
      obtain ⟨rfl, -⟩ := yields_pure.1 h
      exact hnamed.addMark rfl _
  | prune =>
    cases hcarried : c.carried with
    | none =>
      rw [haction, hcarried] at h
      obtain ⟨rfl, -⟩ := yields_pure.1 h
      exact hnamed.addMark rfl _
    | some found =>
      rw [haction, hcarried] at h
      obtain ⟨edits, -, rfl, -⟩ := yields_pruneKey h
      exact FileScan.Named.addMark hnamed rfl _
  | ignore =>
    rw [haction] at h
    cases hcarried : c.carried <;>
    · rw [hcarried] at h
      obtain ⟨rfl, -⟩ := yields_pure.1 h
      exact hnamed.addMark rfl _

theorem named_of_candidates (hcreate : job.options.createTasks = false)
    (hstart : Counts.Grow {} scan.counts)
    (h : (candidates.foldlM (job.scanCandidate file path) scan).Yields w s w')
    (hs : ¬s.counts.Failed) (hnamed : scan.Named file) : s.Named file := by
  induction candidates generalizing scan w with
  | nil =>
    obtain ⟨rfl, -⟩ := yields_pure.1 h
    exact hnamed
  | cons c candidates ih =>
    obtain ⟨scan₁, w₁, hfirst, hrest⟩ := yields_foldlM_cons.1 h
    have hsound := FileScan.not_failed_of_grows (grows_of_foldlM_scanCandidate hrest) hs
    obtain ⟨_, -, hact⟩ := act_of_scanCandidate hstart hfirst hsound
    exact ih (hstart.trans (scanned_of_yields hfirst).grows) hrest
      (named_of_act (ne_create_of_disabled hcreate w.knows c) hact hnamed)

theorem named_of_keys (hstart : Counts.Grow {} scan.counts)
    (h : (keys.foldlM (job.confirmKey file) scan).Yields w s w') (hs : ¬s.counts.Failed)
    (hnamed : scan.Named file) : s.Named file := by
  induction keys generalizing scan w with
  | nil =>
    obtain ⟨rfl, -⟩ := yields_pure.1 h
    exact hnamed
  | cons key keys ih =>
    obtain ⟨scan₁, w₁, hfirst, hrest⟩ := yields_foldlM_cons.1 h
    have hsound := FileScan.not_failed_of_grows (grows_of_foldlM_confirmKey hrest) hs
    refine ih (hstart.trans (grows_of_confirmKey hfirst)) hrest ?_
    rcases confirmed_of_confirmKey hstart hfirst hsound with ⟨-, rfl, -⟩ | ⟨best, result, -, -, rfl⟩
    · exact hnamed
    · exact hnamed.confirmed key best result

/-- The new text of a file that was scanned, if it is written. -/
def newText (job : ScanJob) (text : Text) (scan : FileScan) : Option Text :=
  if job.options.dryRun then none else scan.edits.rewritten text

/-- What a visit to a file with a text leaves behind. -/
structure Effect (job : ScanJob) (path : Path) (file text : Text) (found : List (Text × Anchor))
    (w : Workspace) (s : FileScan) (w' : Workspace) : Prop where
  named : s.Named file
  noted : Reconciler.Noted job.options.dryRun found w w'
  written : ∃ v disk calls, w.Saved v ∧ w' = { v with disk, calls } ∧
    match job.newText text s with
    | none => disk = v.disk
    | some new => v.disk.write path new = (.ok (), disk)

theorem effect_of_visitFile (hcreate : job.options.createTasks = false)
    (hdry : job.reconciler.dryRun = job.options.dryRun) (hplain : Anchor.IsPlain file)
    (hstill : w.Undisturbed path) (hfile : w.disk.tree.displayPath path job.repo = .ok file)
    (htext : w.disk.tree.readText path = .ok text)
    (h : (job.visitFile path grammar).Yields w s w') (hs : ¬s.counts.Failed) :
    job.Effect path file text
      (sightingsIn file (job.spots w.knows (job.scanner.scan text.contents grammar))) w s w' := by
  obtain ⟨scan₁, scan₂, calls, v, hparts⟩ := exists_parts hcreate hfile htext h hs
  obtain ⟨hsaved, hread⟩ := hparts.readText hstill htext
  have hnamed : scan₂.Named file :=
    named_of_keys hparts.grow hparts.keys hparts.sound'
      (named_of_candidates hcreate grow_start hparts.scanned hparts.sound nofun)
  have hnoted : Reconciler.Noted job.options.dryRun
      (sightingsIn file (job.spots w.knows (job.scanner.scan text.contents grammar))) w v := by
    have hback : ∀ sighting ∈ sightingsIn file
        (job.spots w.knows (job.scanner.scan text.contents grammar)),
        Document.readBack sighting.2 = [sighting.2] := by
      intro sighting hmem
      obtain ⟨hhere, hpos⟩ := one_le_line hmem
      exact Document.readBack_of_isWritten ⟨hhere ▸ hplain.addressable, hpos⟩
    have hfirst : Reconciler.Noted job.options.dryRun [] w { w with calls } := .of_eq rfl rfl
    exact hfirst.trans (hdry ▸ (Reconciler.Noted.of_confirmEach (fun _ => hback) hparts.confirms).2)
  obtain ⟨preview, -, hdone⟩ :=
    outcome_of_commit hparts.grow' (hsaved.knows ▸ hparts.drops) hparts.commit hs
  cases hwet : job.options.dryRun with
  | true =>
    rw [hwet, if_pos rfl] at hdone
    obtain ⟨rfl, rfl⟩ := hdone
    refine ⟨(hnamed.previewed preview).dryRun, hnoted, w', w'.disk, w'.calls, hsaved, rfl, ?_⟩
    rw [newText, hwet]
    rfl
  | false =>
    rw [hwet, if_neg Bool.false_ne_true] at hdone
    obtain ⟨result, u, calls', hcommit, rfl, hagrees⟩ := hdone
    have hpreviewed : (if result.applied.isEmpty then scan₂.previewed preview
        else (scan₂.previewed preview).count { filesWritten := 1 }).Named file := by
      split
      · exact hnamed.previewed preview
      · exact hnamed.previewed preview
    have hedits : s.edits = scan₂.edits := by
      rw [hagrees.edits]
      split <;> rfl
    obtain ⟨-, hwritten⟩ := EditQueue.yields_commit hread hcommit
    rw [← hedits] at hwritten
    have hnew : job.newText text s = s.edits.rewritten text := by
      rw [newText, hwet]
      rfl
    obtain ⟨disk, rfl, hdisk⟩ : ∃ disk, u = { v with disk } ∧ match job.newText text s with
        | none => disk = v.disk
        | some new => v.disk.write path new = (.ok (), disk) := by
      rw [hnew]
      cases hrewritten : s.edits.rewritten text with
      | none =>
        rw [hrewritten] at hwritten
        exact ⟨v.disk, hwritten, rfl⟩
      | some new =>
        rw [hrewritten] at hwritten
        obtain ⟨disk, hdisk, hu⟩ := hwritten
        exact ⟨disk, hu, hdisk⟩
    have hlast : Reconciler.Noted job.options.dryRun [] v { v with disk, calls := calls' } :=
      .of_eq rfl rfl
    have hall := hnoted.trans hlast
    rw [List.append_nil] at hall
    exact ⟨hagrees.named hpreviewed, hall, v, disk, calls', hsaved, rfl, hdisk⟩

end ScanJob

end TodoTracker
