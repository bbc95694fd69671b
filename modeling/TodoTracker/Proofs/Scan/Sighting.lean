import TodoTracker.Proofs.Anchor.Sighted
import TodoTracker.Proofs.Marker.Order
import TodoTracker.Proofs.Scan.Counts

/-!
# What is sighted in a file

When no candidate of a file asks for a task, the scan of the file confirms each key that is sighted
in it, at its last line, or something has failed. Only stale keys then wait for the file to be
written; when no candidate asks for an edit at all, nothing waits.
-/

set_option autoImplicit false

namespace TodoTracker

open Work

/-- The last of the lines on which a key was sighted. -/
def lastLine? (spots : List (Text × Nat)) (key : Text) : Option Nat :=
  ((spots.filter fun spot => spot.1 == key).map (·.2)).max?

/-- A key with its last line in a file, if it was sighted there. -/
def sighting? (file : Text) (spots : List (Text × Nat)) (key : Text) : Option (Text × Anchor) :=
  (lastLine? spots key).map fun (line : Nat) => (key, ⟨file, (line : Int)⟩)

/-- What is confirmed in a file: each key once, at its last line. -/
def sightingsIn (file : Text) (spots : List (Text × Nat)) : List (Text × Anchor) :=
  (spots.map (·.1)).eraseDups.filterMap (sighting? file spots)

namespace Mark

theorem line_of_isLater (a b : Mark) :
    (if a.isLater b then a else b).item.line = max b.item.line a.item.line := by
  rw [isLater]
  split
  · rename_i h
    simp only [Bool.or_eq_true, Bool.and_eq_true, decide_eq_true_eq, beq_iff_eq] at h
    omega
  · rename_i h
    simp only [Bool.or_eq_true, Bool.and_eq_true, decide_eq_true_eq, beq_iff_eq] at h
    omega

theorem line_foldl_later (mark : Mark) (rest : List Mark) :
    (rest.foldl (fun best m => if m.isLater best then m else best) mark).item.line =
      (rest.map (·.item.line)).foldl max mark.item.line := by
  induction rest generalizing mark with
  | nil => rfl
  | cons m rest ih =>
    rw [List.foldl_cons, ih, List.map_cons, List.foldl_cons, line_of_isLater]

theorem line_last? (marks : List Mark) :
    (last? marks).map (·.item.line) = (marks.map (·.item.line)).max? := by
  cases marks with
  | nil => rfl
  | cons mark rest =>
    rw [last?, Option.map_some, line_foldl_later]
    rfl

/-- The key that a mark is a sighting of, and its line. -/
def spot? (mark : Mark) : Option (Text × Nat) :=
  mark.followUp.confirms?.map fun key => (key, mark.item.line)

theorem spot?_anchored (mark : Mark) (result : Confirmation) :
    (mark.anchored result).spot? = mark.spot? := by
  have hline : (mark.anchored result).item.line = mark.item.line := by
    rw [anchored]
    dsimp only
    split
    · rfl
    · split <;> rfl
  rw [spot?, spot?, hline]
  rfl

end Mark

theorem nodup_eraseDups (keys : List Text) : keys.eraseDups.Nodup := by
  induction hn : keys.length using Nat.strongRecOn generalizing keys with
  | ind n ih =>
    cases keys with
    | nil => exact List.nodup_nil
    | cons key keys =>
      have hlen : (keys.filter fun b => !b == key).length < n := by
        have hle := List.length_filter_le (fun b => !b == key) keys
        rw [List.length_cons] at hn
        omega
      rw [List.eraseDups_cons, List.nodup_cons]
      exact ⟨by simp, ih _ hlen _ rfl⟩

namespace FileScan

/-- The keys that were sighted, with their lines. -/
def spots (scan : FileScan) : List (Text × Nat) := scan.marks.filterMap Mark.spot?

theorem sightedKeys_eq (scan : FileScan) :
    scan.sightedKeys = (scan.spots.map (·.1)).eraseDups := by
  rw [sightedKeys, spots, List.map_filterMap]
  congr 2
  funext mark
  rw [Mark.spot?]
  cases mark.followUp.confirms? <;> rfl

theorem lines_of_spots (marks : List Mark) (key : Text) :
    ((marks.filterMap Mark.spot?).filter fun spot => spot.1 == key).map (·.2) =
      (marks.filter fun mark => mark.confirms key).map (·.item.line) := by
  induction marks with
  | nil => rfl
  | cons mark marks ih =>
    rw [List.filterMap_cons, List.filter_cons, Mark.confirms, Mark.spot?]
    cases hkey : mark.followUp.confirms? with
    | none => simpa using ih
    | some found =>
      by_cases hfound : found = key
      · simpa [hfound] using ih
      · simpa [hfound] using ih

theorem line_lastMark? (scan : FileScan) (key : Text) :
    (scan.lastMark? key).map (·.item.line) = lastLine? scan.spots key := by
  rw [lastMark?, Mark.line_last?, lastLine?, spots, lines_of_spots]

theorem spots_confirmed (scan : FileScan) (key : Text) (best : Mark) (result : Confirmation) :
    (scan.confirmed key best result).spots = scan.spots := by
  rw [spots, spots, confirmed]
  change List.filterMap _ (List.map _ _) = _
  rw [List.filterMap_map]
  congr 1
  funext mark
  dsimp only [Function.comp_apply]
  split
  · rfl
  · split
    · exact Mark.spot?_anchored mark result
    · rfl

theorem unresolved_unconfirmed (scan : FileScan) {key : Text} (message : Text) {best : Mark}
    (hstart : 0 ≤ scan.counts.unresolved) (hlast : scan.lastMark? key = some best) :
    0 < (scan.unconfirmed key message).counts.unresolved := by
  have hhits : 0 < (scan.marks.filter fun mark => mark.confirms key).length := by
    rw [List.length_pos_iff]
    intro hnone
    rw [lastMark?, hnone] at hlast
    cases hlast
  exact Int.lt_of_lt_of_le (Int.natCast_pos.2 hhits) (Int.le_add_of_nonneg_left hstart)

theorem spots_addMark (scan : FileScan) (item : ScanItem) (followUp : FollowUp) :
    (scan.addMark item followUp).spots =
      scan.spots ++ (followUp.confirms?.map fun key => (key, item.line)).toList := by
  rw [spots, spots, addMark]
  change List.filterMap _ (_ ++ [_]) = _
  rw [List.filterMap_append]
  rw [List.filterMap_cons, Mark.spot?]
  cases followUp.confirms? <;> rfl

/-- What is still to be done about the marks. -/
def followUps (scan : FileScan) : List FollowUp := scan.marks.map (·.followUp)

theorem followUps_addMark (scan : FileScan) (item : ScanItem) (followUp : FollowUp) :
    (scan.addMark item followUp).followUps = scan.followUps ++ [followUp] := by
  simp [followUps, addMark]

theorem followUps_confirmed (scan : FileScan) (key : Text) (best : Mark) (result : Confirmation) :
    (scan.confirmed key best result).followUps = scan.followUps := by
  rw [followUps, followUps, confirmed]
  change List.map _ (List.map _ _) = _
  rw [List.map_map]
  congr 1
  funext mark
  dsimp only [Function.comp_apply]
  split
  · rfl
  · split <;> rfl

theorem followUps_unconfirmed (scan : FileScan) (key message : Text) :
    (scan.unconfirmed key message).followUps = scan.followUps := by
  rw [followUps, followUps, unconfirmed]
  change List.map _ (List.map _ _) = _
  rw [List.map_map]
  congr 1
  funext mark
  dsimp only [Function.comp_apply]
  split <;> rfl

/-- Of the follow-ups, only those wait that drop keys which are not those of tasks. -/
def OnlyDrops (known : Text → Bool) (scan : FileScan) : Prop :=
  ∀ followUp ∈ scan.followUps, followUp.waits = true →
    ∃ key, followUp = .drop key ∧ known key = false

theorem OnlyDrops.addMark {known : Text → Bool} {scan : FileScan} (h : scan.OnlyDrops known)
    (item : ScanItem) {followUp : FollowUp}
    (hnew : followUp.waits = true → ∃ key, followUp = .drop key ∧ known key = false) :
    (scan.addMark item followUp).OnlyDrops known := by
  intro f hf
  rw [followUps_addMark, List.mem_append, List.mem_singleton] at hf
  rcases hf with hf | rfl
  · exact h f hf
  · exact hnew

/-- Nothing was created, nothing is to be written, and no mark waits. -/
structure Quiet (scan : FileScan) : Prop where
  edits : scan.edits = .empty
  waiting : ∀ followUp ∈ scan.followUps, followUp.waits = false
  tasksCreated : scan.counts.tasksCreated = 0
  filesWritten : scan.counts.filesWritten = 0

theorem Quiet.addMark {scan : FileScan} (h : scan.Quiet) (item : ScanItem) {followUp : FollowUp}
    (hwaits : followUp.waits = false) : (scan.addMark item followUp).Quiet := by
  refine ⟨h.edits, ?_, h.tasksCreated, h.filesWritten⟩
  intro f hf
  rw [followUps_addMark, List.mem_append, List.mem_singleton] at hf
  rcases hf with hf | rfl
  · exact h.waiting f hf
  · exact hwaits

end FileScan

namespace ScanJob

variable {job : ScanJob} {file : Text} {path : Path} {scan scan' : FileScan} {w w' : Workspace}
  {candidates : List Candidate}

/-- The keys that candidates are sightings of, with their lines. -/
def spots (job : ScanJob) (known : Text → Bool) (candidates : List Candidate) :
    List (Text × Nat) :=
  candidates.filterMap fun c => (job.sightedKey? known c).map fun key => (key, c.line)

theorem spots_cons (known : Text → Bool) (c : Candidate) :
    job.spots known (c :: candidates) =
      ((job.sightedKey? known c).map fun key => (key, c.line)).toList ++
        job.spots known candidates := by
  rw [spots, spots, List.filterMap_cons]
  cases job.sightedKey? known c <;> rfl

theorem sightedKey?_eq_none {known : Text → Bool} {c : Candidate}
    (h : job.actionOf known c ≠ .confirm) : job.sightedKey? known c = none := by
  rw [sightedKey?, if_neg h]

/-- Candidates that ask for no task are sightings of keys, and leave all but the number of calls of
the workspace as it was. -/
theorem spots_of_candidates (hstart : Counts.Grow {} scan.counts)
    (hdrops : scan.OnlyDrops w.knows)
    (hcreate : ∀ c ∈ candidates, job.actionOf w.knows c ≠ .create)
    (h : (candidates.foldlM (job.scanCandidate file path) scan).Yields w scan' w') :
    scan'.counts.Failed ∨ scan'.OnlyDrops w.knows ∧
      scan'.spots = scan.spots ++ job.spots w.knows candidates ∧ ∃ calls, w' = { w with calls } := by
  induction candidates generalizing scan w with
  | nil =>
    obtain ⟨rfl, rfl⟩ := yields_pure.1 h
    exact .inr ⟨hdrops, (List.append_nil _).symm, w.calls, rfl⟩
  | cons c candidates ih =>
    obtain ⟨scan₁, w₁, hfirst, hrest⟩ := yields_foldlM_cons.1 h
    have hscanned := scanned_of_yields hfirst
    have hstart₁ : Counts.Grow {} scan₁.counts := hstart.trans hscanned.grows
    have hcreate₁ : ∀ d ∈ candidates, job.actionOf w.knows d ≠ .create :=
      fun d hd => hcreate d (List.mem_cons_of_mem _ hd)
    cases hscanned with
    | refused item =>
      refine .inl (Counts.Failed.grow ?_ (grows_of_foldlM_scanCandidate hrest))
      exact .inl (Int.lt_add_one_of_le (hstart.trans (FileScan.grows_count scan
        (FileScan.grow_ofCandidate c))).unresolved)
    | opened haction => exact absurd haction (hcreate c List.mem_cons_self)
    | @pruned item found edits calls haction hcarried hline hadd =>
      have hunknown := unknown_of_prune haction hcarried
      have hnone : job.sightedKey? w.knows c = none :=
        sightedKey?_eq_none (by rw [haction]; decide)
      have hdrops₁ : (FileScan.addMark _ item (.drop found.key)).OnlyDrops w.knows :=
        FileScan.OnlyDrops.addMark hdrops item fun _ => ⟨_, rfl, hunknown⟩
      rcases ih (w := { w with calls }) hstart₁ hdrops₁ hcreate₁ hrest with
        hfailed | ⟨hdrops', hspots, calls', rfl⟩
      · exact .inl hfailed
      · refine .inr ⟨hdrops', ?_, calls', rfl⟩
        rw [hspots, FileScan.spots_addMark, spots_cons, hnone]
        exact List.append_assoc ..
    | @noted item followUp calls _ hline hwaits hfollow =>
      have hdrops₁ : (FileScan.addMark _ item followUp).OnlyDrops w.knows :=
        FileScan.OnlyDrops.addMark hdrops item (by simp [hwaits])
      rcases ih (w := { w with calls }) hstart₁ hdrops₁ hcreate₁ hrest with
        hfailed | ⟨hdrops', hspots, calls', rfl⟩
      · exact .inl hfailed
      · refine .inr ⟨hdrops', ?_, calls', rfl⟩
        rw [hspots, FileScan.spots_addMark, hfollow, hline, spots_cons]
        exact List.append_assoc ..

theorem one_le_of_lastLine? {spots : List (Text × Nat)} {key : Text} {line : Nat}
    (hlines : ∀ spot ∈ spots, 1 ≤ spot.2) (h : lastLine? spots key = some line) : 1 ≤ line := by
  obtain ⟨spot, hspot, rfl⟩ := List.mem_map.1 (List.max?_mem h)
  exact hlines spot (List.mem_filter.1 hspot).1

/-- The keys that were sighted are confirmed one after another, each at its last line. -/
theorem confirmEach_of_sighted {keys : List Text} (hstart : Counts.Grow {} scan.counts)
    (h : (keys.foldlM (job.confirmKey file) scan).Yields w scan' w') :
    scan'.counts.Failed ∨ (job.reconciler.confirmEach
      (keys.filterMap (sighting? file scan.spots))).Yields w () w' := by
  induction keys generalizing scan w with
  | nil =>
    obtain ⟨rfl, rfl⟩ := yields_pure.1 h
    exact .inr (yields_pure.2 ⟨rfl, rfl⟩)
  | cons key keys ih =>
    obtain ⟨scan₁, w₁, hfirst, hrest⟩ := yields_foldlM_cons.1 h
    have hstart₁ : Counts.Grow {} scan₁.counts := hstart.trans (grows_of_confirmKey hfirst)
    have hline := scan.line_lastMark? key
    rcases yields_confirmKey hfirst with ⟨hlast, rfl, rfl⟩ | ⟨best, hlast, hbest⟩
    · rw [hlast] at hline
      rw [List.filterMap_cons, sighting?, ← hline]
      exact ih hstart₁ hrest
    · rw [hlast] at hline
      rcases hbest with ⟨message, rfl⟩ | ⟨result, hconfirm, rfl⟩
      · refine .inl (Counts.Failed.grow ?_ (grows_of_foldlM_confirmKey hrest))
        exact .inl (scan.unresolved_unconfirmed message hstart.unresolved hlast)
      · refine (ih hstart₁ hrest).imp id fun hlater => ?_
        rw [FileScan.spots_confirmed] at hlater
        rw [List.filterMap_cons, sighting?, ← hline]
        exact yields_bind.2 ⟨result, w₁, hconfirm, hlater⟩

/-- Confirming keys changes only what is said about them. -/
theorem kept_of_confirmKey {key : Text} (h : (job.confirmKey file scan key).Yields w scan' w') :
    scan'.edits = scan.edits ∧ scan'.followUps = scan.followUps ∧
      scan'.counts.tasksCreated = scan.counts.tasksCreated ∧
      scan'.counts.filesWritten = scan.counts.filesWritten := by
  rcases yields_confirmKey h with ⟨-, rfl, -⟩ | ⟨best, -, ⟨message, rfl⟩ | ⟨result, -, rfl⟩⟩
  · exact ⟨rfl, rfl, rfl, rfl⟩
  · exact ⟨rfl, scan.followUps_unconfirmed key message, Int.add_zero _, Int.add_zero _⟩
  · exact ⟨rfl, scan.followUps_confirmed key best result, Int.add_zero _, Int.add_zero _⟩

theorem kept_of_foldlM_confirmKey {keys : List Text}
    (h : (keys.foldlM (job.confirmKey file) scan).Yields w scan' w') :
    scan'.edits = scan.edits ∧ scan'.followUps = scan.followUps ∧
      scan'.counts.tasksCreated = scan.counts.tasksCreated ∧
      scan'.counts.filesWritten = scan.counts.filesWritten := by
  refine foldlM_keeps (P := fun s _ => s.edits = scan.edits ∧ s.followUps = scan.followUps ∧
    s.counts.tasksCreated = scan.counts.tasksCreated ∧
    s.counts.filesWritten = scan.counts.filesWritten) ?_ ⟨rfl, rfl, rfl, rfl⟩ h
  rintro key - s v s' v' ⟨hedits, hfollow, hcreated, hwritten⟩ hstep
  obtain ⟨hedits', hfollow', hcreated', hwritten'⟩ := kept_of_confirmKey hstep
  exact ⟨hedits'.trans hedits, hfollow'.trans hfollow, hcreated'.trans hcreated,
    hwritten'.trans hwritten⟩

end ScanJob

end TodoTracker
