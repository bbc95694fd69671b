import TodoTracker.Proofs.Task.Outcomes
import TodoTracker.Scan.File

/-!
# What scanning a file does

A scan of a file that succeeds is taken apart into what it did for each candidate, for each key that
was sighted, and at its end when the edits were committed.
-/

set_option autoImplicit false

namespace TodoTracker

open Work

/-- Whether a key is that of a task. -/
def Workspace.knows (w : Workspace) (key : Text) : Bool := w.store.document.tasks.has key

theorem Workspace.knows_eq_true_iff {w : Workspace} {key : Text} :
    w.knows key = true ↔ key ∈ w.store.document.tasks.keys :=
  Fields.has_eq_true_iff

theorem Workspace.Saved.knows {w w' : Workspace} (h : w.Saved w') : w'.knows = w.knows := by
  funext key
  rw [Workspace.knows, Workspace.knows, TaskMap.has, TaskMap.has, Bool.eq_iff_iff,
    Fields.has_eq_true_iff, Fields.has_eq_true_iff]
  have hkeys := h.keys
  rw [TaskMap.keys, TaskMap.keys] at hkeys
  rw [hkeys]

/-- Whether an action ends in an edit of the file. -/
def Action.edits : Action → Bool
  | .create | .prune => true
  | .confirm | .ignore => false

namespace ScanJob

variable {job : ScanJob} {file : Text} {path : Path} {scan scan' : FileScan} {c : Candidate}
  {w w' : Workspace}

/-- What a candidate asks for when the keys of tasks are known. -/
def actionOf (job : ScanJob) (known : Text → Bool) (c : Candidate) : Action :=
  (Decision.decide c job.policy known).action

/-- The key of a task that a candidate is a sighting of. -/
def sightedKey? (job : ScanJob) (known : Text → Bool) (c : Candidate) : Option Text :=
  if job.actionOf known c = .confirm then c.key.filter (!·.isEmpty) else none

theorem yields_has {key : Text} {found : Bool} (h : (Tasks.has key).Yields w found w') :
    found = w.knows key ∧ w' = { w with calls := w.calls + 1 } := by
  rw [Tasks.has, yields_bind] at h
  obtain ⟨_, w₁, henter, h⟩ := h
  obtain rfl := Tasks.yields_enter henter
  obtain ⟨doc, w₂, hdoc, h⟩ := yields_bind.1 h
  obtain ⟨rfl, rfl⟩ := Tasks.yields_document.1 hdoc
  obtain ⟨rfl, rfl⟩ := yields_pure.1 h
  exact ⟨rfl, rfl⟩

theorem yields_decide {decision : Decision} (h : (job.decide c).Yields w decision w') :
    decision = Decision.decide c job.policy w.knows ∧ w' = { w with calls := w'.calls } := by
  rw [decide] at h
  rw [Decision.decide]
  cases hkey : c.key with
  | none =>
    rw [hkey] at h
    obtain ⟨rfl, rfl⟩ := yields_pure.1 h
    exact ⟨rfl, rfl⟩
  | some key =>
    rw [hkey] at h
    obtain ⟨found, w₁, hhas, h⟩ := yields_bind.1 h
    obtain ⟨rfl, rfl⟩ := yields_has hhas
    obtain ⟨rfl, rfl⟩ := yields_pure.1 h
    exact ⟨rfl, rfl⟩

/-- To find out what a candidate asks for takes calls, and changes nothing else. -/
theorem calls_of_run_decide (job : ScanJob) (c : Candidate) (w : Workspace) :
    ((job.decide c).run w).2 = { w with calls := ((job.decide c).run w).2.calls } := by
  rw [decide]
  cases c.key with
  | none => rfl
  | some key =>
    rw [run_bind, Tasks.has, run_bind, Tasks.run_enter]
    cases w.refusals w.calls .lookUp <;> rfl

/-- What a scan may do about a candidate. -/
inductive Scanned (job : ScanJob) (file : Text) (path : Path) (scan : FileScan) (c : Candidate)
    (w : Workspace) : FileScan → Workspace → Prop
  | refused (item : ScanItem) (w' : Workspace) (hstatus : item.status ≠ .created)
      (hcalls : w' = { w with calls := w'.calls }) :
      Scanned job file path scan c w
        (((scan.count (.ofCandidate c)).count { unresolved := 1 }).addMark item .none) w'
  | opened {item : ScanItem} {v w' : Workspace} {scan' : FileScan}
      (haction : job.actionOf w.knows c = .create)
      (h : (job.openTask file path (scan.count (.ofCandidate c)) c item).Yields v scan' w')
      (hknows : v.knows = w.knows) (hcalls : v = { w with calls := v.calls })
      (hline : item.line = c.line) (htext : item.lineBefore = c.text) :
      Scanned job file path scan c w scan' w'
  | pruned {item : ScanItem} {found : CarriedKey} {edits : EditQueue} (calls : Nat)
      (haction : job.actionOf w.knows c = .prune) (hcarried : c.carried = some found)
      (hline : item.line = c.line)
      (hadd : scan.edits.add path.text ⟨c.line, c.text,
        [Splice.keyRemoval c.text found c.segmentStop]⟩ = .ok edits)
      (hstatus : item.status ≠ .created) :
      Scanned job file path scan c w
        (({ scan.count (.ofCandidate c) with edits }.count { keysStripped := 1 }).addMark item
          (.drop found.key)) { w with calls }
  | noted {item : ScanItem} {followUp : FollowUp} (calls : Nat)
      (haction : (job.actionOf w.knows c).edits = false) (hline : item.line = c.line)
      (hwaits : followUp.waits = false)
      (hfollow : followUp.confirms? = job.sightedKey? w.knows c)
      (hstatus : item.status ≠ .created) :
      Scanned job file path scan c w ((scan.count (.ofCandidate c)).addMark item followUp)
        { w with calls }

theorem yields_pruneKey {item : ScanItem} {found : CarriedKey}
    (h : (pruneKey path scan c item found).Yields w scan' w') :
    ∃ edits, scan.edits.add path.text ⟨c.line, c.text,
        [Splice.keyRemoval c.text found c.segmentStop]⟩ = .ok edits ∧
      scan' = ({ scan with edits }.count { keysStripped := 1 }).addMark
        { item with status := .updated, message := "stale key removed".toList }
        (.drop found.key) ∧ w' = w := by
  rw [pruneKey, yields_bind] at h
  obtain ⟨edits, w₁, hadd, h⟩ := h
  obtain ⟨hedits, rfl⟩ := yields_ofExcept.1 hadd
  obtain ⟨rfl, rfl⟩ := yields_pure.1 h
  exact ⟨edits, hedits, rfl, rfl⟩

theorem actionOf_of_not_carried {known : Text → Bool} (h : c.carried = none) :
    job.actionOf known c = .create ∨ job.actionOf known c = .ignore := by
  have hkey : c.key = none := by rw [Candidate.key, h]; rfl
  rw [actionOf, Decision.decide, hkey]
  dsimp only
  rw [Decision.withoutKey]
  split
  · exact .inr rfl
  · split
    · exact .inl rfl
    · exact .inr rfl

/-- A key that is pruned is not that of a task. -/
theorem unknown_of_prune {known : Text → Bool} {found : CarriedKey}
    (h : job.actionOf known c = .prune) (hcarried : c.carried = some found) :
    known found.key = false := by
  rw [actionOf, Decision.decide, Candidate.key, hcarried] at h
  dsimp only [Option.map_some] at h
  rw [Decision.withKey] at h
  cases hknown : known found.key with
  | false => rfl
  | true =>
    rw [hknown, if_pos rfl] at h
    split at h <;> cases h

theorem scanned_of_yields (h : (job.scanCandidate file path scan c).Yields w scan' w') :
    Scanned job file path scan c w scan' w' := by
  rw [scanCandidate, yields_bind] at h
  obtain ⟨answer, w₁, hattempt, h⟩ := h
  cases answer with
  | error e =>
    obtain ⟨rfl, rfl⟩ := yields_pure.1 h
    refine .refused _ _ (by simp [ScanItem.failed]) ?_
    have hleft : w₁ = ((job.decide c).run w).2 := by rw [← run_attempt, hattempt]
    rw [hleft]
    exact calls_of_run_decide job c w
  | ok decision =>
    have hdecide : (job.decide c).Yields w decision w₁ := by
      rcases yields_attempt hattempt with ⟨d, hd, hyields⟩ | ⟨e, he⟩
      · cases hd
        exact hyields
      · cases he
    obtain ⟨rfl, hcalls⟩ := yields_decide hdecide
    dsimp only at h
    split at h
    · rename_i haction
      exact .opened haction h (by rw [hcalls]; rfl) hcalls rfl rfl
    · rename_i found haction hcarried
      obtain ⟨rfl, rfl⟩ := yields_pure.1 h
      rw [hcalls]
      have hconfirm : job.actionOf w.knows c = .confirm := haction
      refine .noted _ (by rw [hconfirm]; rfl) rfl ?_ ?_ (by simp [ScanItem.decided, ScanItem.ofCandidate])
      · split <;> rfl
      · rw [sightedKey?, if_pos hconfirm, Candidate.key, hcarried]
        by_cases hempty : found.key.isEmpty = true
        · simp [hempty, FollowUp.confirms?, Option.filter]
        · simp [hempty, FollowUp.confirms?, Option.filter]
    · rename_i found haction hcarried
      obtain ⟨edits, hadd, rfl, rfl⟩ := yields_pruneKey h
      rw [hcalls]
      exact .pruned _ haction hcarried rfl hadd (by simp)
    · rename_i hcreate hconfirm hprune
      obtain ⟨rfl, rfl⟩ := yields_pure.1 h
      rw [hcalls]
      have hignore : job.actionOf w.knows c = .ignore := by
        cases hcarried : c.carried with
        | none => exact (actionOf_of_not_carried hcarried).resolve_left hcreate
        | some found =>
          cases haction : job.actionOf w.knows c with
          | create => exact absurd haction hcreate
          | confirm => exact absurd hcarried (hconfirm found haction)
          | prune => exact absurd hcarried (hprune found haction)
          | ignore => rfl
      refine .noted _ (by rw [hignore]; rfl) rfl rfl ?_ (by simp [ScanItem.decided, ScanItem.ofCandidate])
      rw [sightedKey?, hignore]
      rfl

theorem yields_confirmKey {key : Text}
    (h : (job.confirmKey file scan key).Yields w scan' w') :
    scan.lastMark? key = none ∧ scan' = scan ∧ w' = w ∨
      ∃ best, scan.lastMark? key = some best ∧
        ((∃ message, scan' = scan.unconfirmed key message) ∨
          ∃ result, (job.reconciler.confirm key ⟨file, best.item.line⟩).Yields w result w' ∧
            scan' = scan.confirmed key best result) := by
  rw [confirmKey] at h
  split at h
  · rename_i hlast
    obtain ⟨rfl, rfl⟩ := yields_pure.1 h
    exact .inl ⟨hlast, rfl, rfl⟩
  · rename_i best hlast
    refine .inr ⟨best, hlast, ?_⟩
    obtain ⟨answer, w₁, hattempt, h⟩ := yields_bind.1 h
    cases answer with
    | error e =>
      obtain ⟨rfl, -⟩ := yields_pure.1 h
      exact .inl ⟨_, rfl⟩
    | ok result =>
      obtain ⟨rfl, rfl⟩ := yields_pure.1 h
      rcases yields_attempt hattempt with ⟨a, ha, hconfirm⟩ | ⟨e, he⟩
      · cases ha
        exact .inr ⟨_, hconfirm, rfl⟩
      · cases he

/-- The edits of a file are written or fail as a whole; the marks that have waited for them are
finished one after another. -/
theorem yields_commit (hdry : job.options.dryRun = false)
    (h : (job.commit file path scan).Yields w scan' w') :
    ∃ preview, scan.edits.preview = .ok preview ∧
      ((∃ e reason warning, (scan.edits.commit path).run w = (.error e, w') ∧
          scan' = (scan.previewed preview).waiting.foldl (·.unwritten reason ·)
            (((scan.previewed preview).warn warning).count { writeFailures := 1 })) ∨
        ∃ result v written, (scan.edits.commit path).Yields w result v ∧
          written = (if result.applied.isEmpty then scan.previewed preview
            else (scan.previewed preview).count { filesWritten := 1 }) ∧
          (written.waiting.foldlM (job.finish file result.stale) written).Yields v scan' w') := by
  rw [commit, yields_bind] at h
  obtain ⟨preview, w₁, hpreview, h⟩ := h
  obtain ⟨hok, rfl⟩ := yields_ofExcept.1 hpreview
  refine ⟨preview, hok, ?_⟩
  rw [hdry] at h
  dsimp only [Bool.false_eq_true, if_false] at h
  obtain ⟨answer, w₂, hattempt, h⟩ := yields_bind.1 h
  rcases yields_attemptFile hattempt with ⟨result, rfl, hcommit⟩ | ⟨message, e, rfl, hfailed⟩
  · exact .inr ⟨_, _, _, hcommit, rfl, h⟩
  · obtain ⟨rfl, rfl⟩ := yields_pure.1 h
    exact .inl ⟨e, _, _, hfailed, rfl⟩

/-- What finishing a mark may do once the edits of its file are committed. -/
inductive Finished (job : ScanJob) (file : Text) (stale : List Int) (scan : FileScan)
    (mark : Mark) (w : Workspace) : FileScan → Workspace → Prop
  | left (hstale : (mark.item.line : Int) ∈ stale) :
      Finished job file stale scan mark w
        (scan.unwritten "line changed during scan".toList mark) w
  | anchored {key : Text} {result : Confirmation} {w' : Workspace}
      (hfollow : mark.followUp = .anchor key)
      (h : (job.reconciler.confirm key ⟨file, mark.item.line⟩).Yields w result w') :
      Finished job file stale scan mark w (scan.count {
        anchorsAdded := if result.appended then 1 else 0, anchorsPruned := result.pruned }) w'
  | unanchored {key : Text} {e : StoreError} {w' : Workspace}
      (hfollow : mark.followUp = .anchor key)
      (h : (attempt (job.reconciler.confirm key ⟨file, mark.item.line⟩)).Yields w (.error e) w') :
      Finished job file stale scan mark w
        ((scan.replaceMark { mark with item := { mark.item with
          message := "anchor not recorded: ".toList ++ e.message } }).count { unresolved := 1 }) w'
  | dropped {key : Text} {removed : Bool} {w' : Workspace} (hfollow : mark.followUp = .drop key)
      (h : (Tasks.remove key ⟨file, mark.item.line⟩).Yields w removed w') :
      Finished job file stale scan mark w
        (if removed then scan.count { anchorsPruned := 1 } else scan) w'
  | undropped {key : Text} {e : StoreError} {w' : Workspace} (hfollow : mark.followUp = .drop key)
      (h : (attempt (Tasks.remove key ⟨file, mark.item.line⟩)).Yields w (.error e) w') :
      Finished job file stale scan mark w
        (scan.warn ("Failed to drop anchor ".toList ++ key ++ " -> ".toList ++ file ++
          ':' :: Text.ofNat mark.item.line ++ ": ".toList ++ e.message)) w'
  | idle (hwaits : mark.followUp.waits = false) : Finished job file stale scan mark w scan w

theorem finished_of_yields {stale : List Int} {mark : Mark}
    (h : (job.finish file stale scan mark).Yields w scan' w') :
    Finished job file stale scan mark w scan' w' := by
  rw [finish] at h
  split at h
  · rename_i hstale
    obtain ⟨rfl, rfl⟩ := yields_pure.1 h
    exact .left (List.contains_iff_mem.1 hstale)
  · dsimp only at h
    split at h
    · rename_i key hfollow
      obtain ⟨answer, w₁, hattempt, h⟩ := yields_bind.1 h
      cases answer with
      | ok result =>
        obtain ⟨rfl, rfl⟩ := yields_pure.1 h
        exact .anchored hfollow (yields_of_attempt hattempt)
      | error e =>
        obtain ⟨rfl, rfl⟩ := yields_pure.1 h
        exact .unanchored hfollow hattempt
    · rename_i key hfollow
      obtain ⟨answer, w₁, hattempt, h⟩ := yields_bind.1 h
      cases answer with
      | ok removed =>
        cases removed <;>
        · obtain ⟨rfl, rfl⟩ := yields_pure.1 h
          exact .dropped hfollow (yields_of_attempt hattempt)
      | error e =>
        obtain ⟨rfl, rfl⟩ := yields_pure.1 h
        exact .undropped hfollow hattempt
    · rename_i hanchor hdrop
      obtain ⟨rfl, rfl⟩ := yields_pure.1 h
      refine .idle ?_
      cases hfollow : mark.followUp with
      | anchor key => exact absurd hfollow (hanchor key)
      | drop key => exact absurd hfollow (hdrop key)
      | _ => rfl

/-- A file that cannot be read is skipped. The candidates of any other are gone through, then the
keys that were sighted, and then the edits are committed. -/
theorem yields_visitFile {grammar : Grammar}
    (h : (job.visitFile path grammar).Yields w scan w') :
    ∃ file, w.disk.tree.displayPath path job.repo = .ok file ∧
      ((∃ e warning, w.disk.tree.readText path = .error e ∧ w' = w ∧
          scan = (({} : FileScan).warn warning).count { filesSkipped := 1 }) ∨
        ∃ text scan₁ scan₂ w₁ w₂, w.disk.tree.readText path = .ok text ∧
          ((job.scanner.scan text.contents grammar).foldlM (job.scanCandidate file path)
            (({} : FileScan).count { filesScanned := 1 })).Yields w scan₁ w₁ ∧
          (scan₁.sightedKeys.foldlM (job.confirmKey file) scan₁).Yields w₁ scan₂ w₂ ∧
          (job.commit file path scan₂).Yields w₂ scan w') := by
  rw [visitFile, yields_bind] at h
  obtain ⟨file, v, hdisplay, h⟩ := h
  obtain ⟨hfile, rfl⟩ := yields_look.1 hdisplay
  refine ⟨file, hfile, ?_⟩
  obtain ⟨answer, v', hattempt, hvisit⟩ := yields_bind.1 h
  rcases yields_attemptFile hattempt with ⟨text, rfl, hread⟩ | ⟨message, e, rfl, hfailed⟩
  · obtain ⟨htext, rfl⟩ := yields_look.1 hread
    obtain ⟨scan₁, w₁, hscan, hrest⟩ := yields_bind.1 hvisit
    obtain ⟨scan₂, w₂, hsighted, hcommit⟩ := yields_bind.1 hrest
    exact .inr ⟨text, scan₁, scan₂, w₁, w₂, htext, hscan, hsighted, hcommit⟩
  · obtain ⟨rfl, rfl⟩ := yields_pure.1 hvisit
    rw [run_look] at hfailed
    obtain ⟨herror, rfl⟩ := Prod.mk.inj hfailed
    exact .inl ⟨e, _, herror, rfl, rfl⟩

end ScanJob

end TodoTracker
