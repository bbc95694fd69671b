import TodoTracker.Proofs.Anchor.Noted
import TodoTracker.Proofs.Edit.Committed
import TodoTracker.Proofs.Scan.LastSighting

/-!
# What the outcome of a file depends on

What a scan of a file finds, queues and counts depends on its name and text, on which keys are those
of tasks, and on the anchors that these have in the file; nothing else of the workspace matters, as
long as no task is created and nothing fails. So two scans of a file from workspaces that agree in
this have the same outcome, warnings apart.
-/

set_option autoImplicit false

namespace TodoTracker

open Work

/-- The new text of a file, if edits change the old one. -/
def EditQueue.rewritten (queue : EditQueue) (text : Text) : Option Text :=
  if queue.edits.isEmpty then none
  else match queue.apply text with
    | .ok made => if Line.join made.lines = text then none else some (Line.join made.lines)
    | .error _ => none

/-- A commit writes the new text if there is one; it reads the file and writes it if that changes
anything. -/
theorem EditQueue.yields_commit {queue : EditQueue} {path : Path} {result : Commit}
    {text : Text} {w w' : Workspace} (htext : w.disk.tree.readText path = .ok text)
    (h : (queue.commit path).Yields w result w') :
    (queue.edits = [] ∧ result = ⟨[], []⟩ ∨
      ∃ made, queue.apply text = .ok made ∧ result = ⟨made.applied, made.stale⟩) ∧
    match queue.rewritten text with
      | none => w' = w
      | some new => ∃ disk, w.disk.write path new = (.ok (), disk) ∧ w' = { w with disk } := by
  by_cases hne : queue.edits = []
  · rw [commit, if_pos (List.isEmpty_iff.2 hne)] at h
    obtain ⟨rfl, rfl⟩ := yields_pure.1 h
    rw [rewritten, if_pos (List.isEmpty_iff.2 hne)]
    exact ⟨.inl ⟨hne, rfl⟩, rfl⟩
  · obtain ⟨current, made, hmade, rfl, hw⟩ := made_of_commit hne h
    obtain rfl : text = current := Except.ok.inj (htext.symm.trans hmade.read)
    have hwritten := hmade.written
    refine ⟨.inr ⟨made, hmade.applied, rfl⟩, ?_⟩
    rw [rewritten, if_neg (List.isEmpty_iff.not.2 hne), hmade.applied]
    dsimp only
    split at hwritten
    · rename_i hsame
      rw [if_pos hsame]
      rw [hwritten] at hw
      exact hw
    · rename_i hchanged
      rw [if_neg hchanged]
      exact ⟨_, hwritten, hw⟩

namespace FileScan

/-- Two scans of a file are the same, warnings apart. -/
structure Agrees (scan scan' : FileScan) : Prop where
  marks : scan'.marks = scan.marks
  counts : scan'.counts = scan.counts
  edits : scan'.edits = scan.edits

namespace Agrees

variable {scan scan' scan'' : FileScan}

theorem refl (scan : FileScan) : scan.Agrees scan := ⟨rfl, rfl, rfl⟩

theorem symm (h : scan.Agrees scan') : scan'.Agrees scan :=
  ⟨h.marks.symm, h.counts.symm, h.edits.symm⟩

theorem trans (h : scan.Agrees scan') (h' : scan'.Agrees scan'') : scan.Agrees scan'' :=
  ⟨h'.marks.trans h.marks, h'.counts.trans h.counts, h'.edits.trans h.edits⟩

end Agrees

theorem not_failed_of_grows {scan scan' : FileScan} (h : scan.Grows scan')
    (hsound : ¬scan'.counts.Failed) : ¬scan.counts.Failed :=
  fun hfailed => hsound (hfailed.grow h)

end FileScan

namespace ScanJob

variable {job : ScanJob} {file : Text} {path : Path} {grammar : Grammar}
  {scan s s' : FileScan} {c : Candidate} {candidates : List Candidate} {key : Text}
  {keys : List Text} {w w' v v' : Workspace}

section Candidates

/-- What is done about a candidate once it is known what it asks for. -/
def act (job : ScanJob) (file : Text) (path : Path) (scan : FileScan) (candidate : Candidate)
    (decision : Decision) : Work FileScan :=
  let item := (ScanItem.ofCandidate file candidate).decided decision
  match decision.action, candidate.carried with
  | .create, _ => job.openTask file path scan candidate item
  | .confirm, some found =>
    return scan.addMark item (if found.key.isEmpty then .none else .confirm found.key)
  | .prune, some found => pruneKey path scan candidate item found
  | _, _ => return scan.addMark item .none

/-- Unless a call is refused, a candidate is dealt with as it asks for. -/
theorem act_of_scanCandidate (hstart : Counts.Grow {} scan.counts)
    (h : (job.scanCandidate file path scan c).Yields w s w') (hs : ¬s.counts.Failed) :
    ∃ v, v.knows = w.knows ∧ (job.act file path (scan.count (.ofCandidate c)) c
      (Decision.decide c job.policy w.knows)).Yields v s w' := by
  rw [scanCandidate, yields_bind] at h
  obtain ⟨answer, v, hattempt, h⟩ := h
  cases answer with
  | error e =>
    obtain ⟨rfl, -⟩ := yields_pure.1 h
    exact absurd (.inl (Int.lt_add_one_of_le (hstart.trans (FileScan.grows_count scan
      (FileScan.grow_ofCandidate c))).unresolved)) hs
  | ok decision =>
    rcases yields_attempt hattempt with ⟨_, heq, hdecide⟩ | ⟨e, he⟩
    · cases heq
      obtain ⟨rfl, hcalls⟩ := yields_decide hdecide
      refine ⟨v, ?_, h⟩
      rw [hcalls]
      rfl
    · cases he

/-- Apart from creating a task, what is done about a candidate does not depend on the workspace. -/
theorem act_unique {decision : Decision} (hcreate : decision.action ≠ .create)
    (h : (job.act file path scan c decision).Yields w s w')
    (h' : (job.act file path scan c decision).Yields v s' v') : s = s' := by
  rw [act] at h h'
  cases haction : decision.action with
  | create => exact absurd haction hcreate
  | confirm =>
    cases hcarried : c.carried <;>
    · rw [haction, hcarried] at h h'
      exact (yields_pure.1 h).1.symm.trans (yields_pure.1 h').1
  | prune =>
    cases hcarried : c.carried with
    | none =>
      rw [haction, hcarried] at h h'
      exact (yields_pure.1 h).1.symm.trans (yields_pure.1 h').1
    | some found =>
      rw [haction, hcarried] at h h'
      obtain ⟨edits, hadd, rfl, -⟩ := yields_pruneKey h
      obtain ⟨edits', hadd', rfl, -⟩ := yields_pruneKey h'
      rw [hadd] at hadd'
      cases hadd'
      rfl
  | ignore =>
    rw [haction] at h h'
    cases hcarried : c.carried <;>
    · rw [hcarried] at h h'
      exact (yields_pure.1 h).1.symm.trans (yields_pure.1 h').1

/-- A candidate that asks for no task leaves the workspace as it is, calls apart. -/
theorem calls_of_scanCandidate (hstart : Counts.Grow {} scan.counts)
    (hcreate : job.actionOf w.knows c ≠ .create)
    (h : (job.scanCandidate file path scan c).Yields w s w') (hs : ¬s.counts.Failed) :
    ∃ calls, w' = { w with calls } := by
  cases scanned_of_yields h with
  | refused item =>
    exact absurd (.inl (Int.lt_add_one_of_le (hstart.trans (FileScan.grows_count scan
      (FileScan.grow_ofCandidate c))).unresolved)) hs
  | opened haction => exact absurd haction hcreate
  | pruned calls => exact ⟨calls, rfl⟩
  | noted calls => exact ⟨calls, rfl⟩

/-- The candidates of a file are dealt with in the same way wherever the same keys are those of
tasks. -/
theorem candidates_unique (hcreate : ∀ c ∈ candidates, job.actionOf w.knows c ≠ .create)
    (hknows : v.knows = w.knows) (hstart : Counts.Grow {} scan.counts)
    (h : (candidates.foldlM (job.scanCandidate file path) scan).Yields w s w')
    (h' : (candidates.foldlM (job.scanCandidate file path) scan).Yields v s' v')
    (hs : ¬s.counts.Failed) (hs' : ¬s'.counts.Failed) : s = s' := by
  induction candidates generalizing scan w v with
  | nil => exact (yields_pure.1 h).1.symm.trans (yields_pure.1 h').1
  | cons c candidates ih =>
    obtain ⟨scan₁, w₁, hfirst, hrest⟩ := yields_foldlM_cons.1 h
    obtain ⟨scan₁', v₁, hfirst', hrest'⟩ := yields_foldlM_cons.1 h'
    have hsound := FileScan.not_failed_of_grows (grows_of_foldlM_scanCandidate hrest) hs
    have hsound' := FileScan.not_failed_of_grows (grows_of_foldlM_scanCandidate hrest') hs'
    have hhead := hcreate c List.mem_cons_self
    obtain ⟨_, -, hact⟩ := act_of_scanCandidate hstart hfirst hsound
    obtain ⟨_, -, hact'⟩ := act_of_scanCandidate hstart hfirst' hsound'
    rw [hknows] at hact'
    obtain rfl := act_unique hhead hact hact'
    obtain ⟨calls, rfl⟩ := calls_of_scanCandidate hstart hhead hfirst hsound
    obtain ⟨calls', rfl⟩ := calls_of_scanCandidate hstart (hknows ▸ hhead) hfirst' hsound'
    have hknows₁ : { v with calls := calls' }.knows = { w with calls }.knows := hknows
    have hcreate₁ : ∀ d ∈ candidates, job.actionOf { w with calls }.knows d ≠ .create :=
      fun d hd => hcreate d (List.mem_cons_of_mem _ hd)
    exact ih hcreate₁ hknows₁ (hstart.trans (scanned_of_yields hfirst).grows) hrest hrest'

end Candidates

section Keys

/-- Both workspaces have the same anchors of a key in a file, where these can be told. -/
def SameMine (file key : Text) (w v : Workspace) : Prop :=
  ∀ as as', w.anchors key = .ok as → v.anchors key = .ok as' → inFile file as = inFile file as'

theorem confirmed_of_confirmKey (hstart : Counts.Grow {} scan.counts)
    (h : (job.confirmKey file scan key).Yields w s w') (hs : ¬s.counts.Failed) :
    scan.lastMark? key = none ∧ s = scan ∧ w' = w ∨ ∃ best result, scan.lastMark? key = some best ∧
      (job.reconciler.confirm key ⟨file, best.item.line⟩).Yields w result w' ∧
      s = scan.confirmed key best result := by
  rcases yields_confirmKey h with hnone | ⟨best, hlast, ⟨message, rfl⟩ | ⟨result, hconfirm, rfl⟩⟩
  · exact .inl hnone
  · exact absurd (.inl (scan.unresolved_unconfirmed message hstart.unresolved hlast)) hs
  · exact .inr ⟨best, result, hlast, hconfirm, rfl⟩

theorem confirmKey_unique (hstart : Counts.Grow {} scan.counts) (hmine : SameMine file key w v)
    (h : (job.confirmKey file scan key).Yields w s w')
    (h' : (job.confirmKey file scan key).Yields v s' v') (hs : ¬s.counts.Failed)
    (hs' : ¬s'.counts.Failed) : s = s' := by
  rcases confirmed_of_confirmKey hstart h hs with
    ⟨hnone, rfl, -⟩ | ⟨best, result, hlast, hyields, rfl⟩
  · rcases confirmed_of_confirmKey hstart h' hs' with ⟨-, rfl, -⟩ | ⟨best, result, hlast, -⟩
    · rfl
    · rw [hnone] at hlast
      cases hlast
  · rcases confirmed_of_confirmKey hstart h' hs' with
      ⟨hnone, -⟩ | ⟨best', result', hlast', hyields', rfl⟩
    · rw [hnone] at hlast
      cases hlast
    · rw [hlast] at hlast'
      cases hlast'
      obtain ⟨as, has, rfl⟩ := Reconciler.answer_of_confirm hyields
      obtain ⟨as', has', rfl⟩ := Reconciler.answer_of_confirm hyields'
      dsimp only
      rw [hmine as as' has has']

theorem anchors_of_confirmKey (hstart : Counts.Grow {} scan.counts)
    (h : (job.confirmKey file scan key).Yields w s w') (hs : ¬s.counts.Failed) {other : Text}
    (hne : other ≠ key) : w'.anchors other = w.anchors other := by
  rcases confirmed_of_confirmKey hstart h hs with ⟨-, -, rfl⟩ | ⟨best, result, -, hyields, -⟩
  · rfl
  · exact (Reconciler.others_of_confirm hyields).2.2.1 other hne

/-- Different keys are confirmed in the same way wherever they have the same anchors in the file. -/
theorem keys_unique (hnodup : keys.Nodup) (hstart : Counts.Grow {} scan.counts)
    (hmine : ∀ key ∈ keys, SameMine file key w v)
    (h : (keys.foldlM (job.confirmKey file) scan).Yields w s w')
    (h' : (keys.foldlM (job.confirmKey file) scan).Yields v s' v')
    (hs : ¬s.counts.Failed) (hs' : ¬s'.counts.Failed) : s = s' := by
  induction keys generalizing scan w v with
  | nil => exact (yields_pure.1 h).1.symm.trans (yields_pure.1 h').1
  | cons key keys ih =>
    obtain ⟨hnew, hnodup⟩ := List.nodup_cons.1 hnodup
    obtain ⟨scan₁, w₁, hfirst, hrest⟩ := yields_foldlM_cons.1 h
    obtain ⟨scan₁', v₁, hfirst', hrest'⟩ := yields_foldlM_cons.1 h'
    have hsound := FileScan.not_failed_of_grows (grows_of_foldlM_confirmKey hrest) hs
    have hsound' := FileScan.not_failed_of_grows (grows_of_foldlM_confirmKey hrest') hs'
    obtain rfl := confirmKey_unique hstart (hmine key List.mem_cons_self) hfirst hfirst' hsound
      hsound'
    refine ih hnodup (hstart.trans (grows_of_confirmKey hfirst)) ?_ hrest hrest'
    intro other hother as as' has has'
    have hne : other ≠ key := fun heq => hnew (heq ▸ hother)
    rw [anchors_of_confirmKey hstart hfirst hsound hne] at has
    rw [anchors_of_confirmKey hstart hfirst' hsound' hne] at has'
    exact hmine other (List.mem_cons_of_mem _ hother) as as' has has'

end Keys

section Commit

/-- Dropping the anchor of a stale key has failed, or changes warnings at most. -/
theorem agrees_of_finish {stale : List Int} {mark : Mark} (hstart : Counts.Grow {} scan.counts)
    (hdrop : mark.followUp = .drop key) (hunknown : w.knows key = false)
    (h : (job.finish file stale scan mark).Yields w s w') (hs : ¬s.counts.Failed) :
    scan.Agrees s ∧ ∃ calls, w' = { w with calls } := by
  rw [finish] at h
  split at h
  · obtain ⟨rfl, -⟩ := yields_pure.1 h
    exact absurd (.inl (Int.lt_add_one_of_le hstart.unresolved)) hs
  · rw [hdrop] at h
    obtain ⟨answer, w₁, hattempt, h⟩ := yields_bind.1 h
    have hremoved : w₁ = { w with calls := w.calls + 1 } := by
      rw [← Tasks.run_remove_of_unknown hunknown ⟨file, mark.item.line⟩, ← run_attempt, hattempt]
    subst hremoved
    cases answer with
    | error e =>
      obtain ⟨rfl, rfl⟩ := yields_pure.1 h
      exact ⟨⟨rfl, rfl, rfl⟩, _, rfl⟩
    | ok removed =>
      obtain ⟨rfl, rfl⟩ := yields_pure.1 h
      rcases yields_attempt hattempt with ⟨_, heq, hremove⟩ | ⟨e, he⟩
      · cases heq
        have hnone : w.anchors key = .ok [] := by
          obtain ⟨-, as, has, -⟩ := Tasks.yields_remove hremove
          rw [Workspace.anchors, Document.anchors] at has ⊢
          cases htask : w.store.document.tasks.task? key with
          | none => rfl
          | some task =>
            have hmem := List.mem_map_of_mem (f := Prod.fst) (Document.mem_of_task? htask)
            have hknown := Workspace.knows_eq_true_iff.2 hmem
            rw [hunknown] at hknown
            cases hknown
        rw [Tasks.answer_of_remove hremove hnone]
        exact ⟨.refl _, _, rfl⟩
      · cases he

theorem agrees_of_foldlM_finish {stale : List Int} {marks : List Mark}
    (hstart : Counts.Grow {} scan.counts)
    (hdrops : ∀ mark ∈ marks, ∃ key, mark.followUp = .drop key ∧ w.knows key = false)
    (h : (marks.foldlM (job.finish file stale) scan).Yields w s w') (hs : ¬s.counts.Failed) :
    scan.Agrees s ∧ ∃ calls, w' = { w with calls } := by
  induction marks generalizing scan w with
  | nil =>
    obtain ⟨rfl, rfl⟩ := yields_pure.1 h
    exact ⟨.refl _, w.calls, rfl⟩
  | cons mark marks ih =>
    obtain ⟨scan₁, w₁, hfirst, hrest⟩ := yields_foldlM_cons.1 h
    obtain ⟨key, hdrop, hunknown⟩ := hdrops mark List.mem_cons_self
    obtain ⟨hagrees, calls, rfl⟩ := agrees_of_finish hstart hdrop hunknown hfirst
      (FileScan.not_failed_of_grows (grows_of_foldlM_finish hrest) hs)
    have hdrops₁ : ∀ m ∈ marks, ∃ key, m.followUp = .drop key ∧
        { w with calls }.knows key = false :=
      fun m hm => hdrops m (List.mem_cons_of_mem _ hm)
    obtain ⟨hagrees', calls', rfl⟩ := ih (hstart.trans (grows_of_finish hfirst)) hdrops₁ hrest
    exact ⟨hagrees.trans hagrees', calls', rfl⟩

/-- The marks of a file whose edits were committed show what their lines become. Nothing else has
changed but that a file that was written counts. -/
theorem outcome_of_commit (hstart : Counts.Grow {} scan.counts) (hdrops : scan.OnlyDrops w.knows)
    (h : (job.commit file path scan).Yields w s w') (hs : ¬s.counts.Failed) :
    ∃ preview, scan.edits.preview = .ok preview ∧
      if job.options.dryRun then s = (scan.previewed preview).dryRun ∧ w' = w
      else ∃ result v calls, (scan.edits.commit path).Yields w result v ∧
        w' = { v with calls } ∧
        FileScan.Agrees (if result.applied.isEmpty then scan.previewed preview
          else (scan.previewed preview).count { filesWritten := 1 }) s := by
  cases hdry : job.options.dryRun with
  | true =>
    rw [commit, yields_bind] at h
    obtain ⟨preview, w₁, hpreview, h⟩ := h
    obtain ⟨hok, rfl⟩ := yields_ofExcept.1 hpreview
    rw [hdry, if_pos rfl] at h
    obtain ⟨rfl, rfl⟩ := yields_pure.1 h
    exact ⟨preview, hok, rfl, rfl⟩
  | false =>
    obtain ⟨preview, hok, ⟨_, reason, warning, -, rfl⟩ |
        ⟨result, v, written, hcommit, hwritten, hfinish⟩⟩ := yields_commit hdry h
    · refine absurd (Counts.Failed.grow (.inr ?_) (FileScan.grows_foldl_unwritten ..)) hs
      exact Int.lt_add_one_of_le hstart.writeFailures
    · refine ⟨preview, hok, ?_⟩
      rw [if_neg Bool.false_ne_true]
      have hgrow : Counts.Grow {} written.counts := by
        refine hstart.trans ?_
        rw [hwritten]
        split
        · exact .refl _
        · exact FileScan.grows_count _
            ⟨Int.le_refl _, Int.zero_le_ofNat 1, Int.le_refl _, Int.le_refl _⟩
      have hfollow : written.followUps = scan.followUps := by
        rw [hwritten, ← scan.followUps_previewed preview]
        split <;> rfl
      have hwaiting : ∀ mark ∈ written.waiting, ∃ key, mark.followUp = .drop key ∧
          v.knows key = false := by
        intro mark hmark
        obtain ⟨hmem, hwaits⟩ := FileScan.waits_of_mem_waiting hmark
        rw [(EditQueue.sameTasks_of_commit hcommit).knows]
        exact hdrops _ (hfollow ▸ hmem) hwaits
      obtain ⟨hagrees, calls, hw'⟩ := agrees_of_foldlM_finish hgrow hwaiting hfinish hs
      exact ⟨result, v, calls, hcommit, hw', hwritten ▸ hagrees⟩

end Commit

section Visit

variable {text : Text}

/-- What a visit has gone through: the candidates, the keys that were sighted, and the commit. -/
structure Parts (job : ScanJob) (path : Path) (file : Text) (candidates : List Candidate)
    (w : Workspace) (scan₁ scan₂ : FileScan) (calls : Nat) (v : Workspace) (s : FileScan)
    (w' : Workspace) : Prop where
  scanned : (candidates.foldlM (job.scanCandidate file path)
    (({} : FileScan).count { filesScanned := 1 })).Yields w scan₁ { w with calls }
  keys : (scan₁.sightedKeys.foldlM (job.confirmKey file) scan₁).Yields { w with calls } scan₂ v
  commit : (job.commit file path scan₂).Yields v s w'
  grow : Counts.Grow {} scan₁.counts
  grow' : Counts.Grow {} scan₂.counts
  sound : ¬scan₁.counts.Failed
  sound' : ¬scan₂.counts.Failed
  drops : scan₂.OnlyDrops w.knows
  confirms : (job.reconciler.confirmEach
    (sightingsIn file (job.spots w.knows candidates))).Yields { w with calls } () v

theorem exists_parts (hcreate : job.options.createTasks = false)
    (hfile : w.disk.tree.displayPath path job.repo = .ok file)
    (htext : w.disk.tree.readText path = .ok text)
    (h : (job.visitFile path grammar).Yields w s w') (hs : ¬s.counts.Failed) :
    ∃ scan₁ scan₂ calls v, job.Parts path file (job.scanner.scan text.contents grammar) w scan₁
      scan₂ calls v s w' := by
  obtain ⟨_, hfile',
    ⟨_, _, hunread, -⟩ | ⟨_, scan₁, scan₂, w₁, v, htext', hscan, hsight, hcommit⟩⟩ :=
    yields_visitFile h
  · rw [htext] at hunread
    cases hunread
  rw [hfile] at hfile'
  cases hfile'
  rw [htext] at htext'
  cases htext'
  have hgrow := grow_start.trans (grows_of_foldlM_scanCandidate hscan)
  have hgrow' := hgrow.trans (grows_of_foldlM_confirmKey hsight)
  have hsound' := FileScan.not_failed_of_grows (grows_of_commit hcommit) hs
  have hsound := FileScan.not_failed_of_grows (grows_of_foldlM_confirmKey hsight) hsound'
  obtain ⟨-, hfollow, -⟩ := kept_of_foldlM_confirmKey hsight
  rcases spots_of_candidates grow_start nofun
    (fun c _ => ne_create_of_disabled hcreate w.knows c) hscan with
    hfailed | ⟨hdrops, hspots, calls, rfl⟩
  · exact absurd hfailed hsound
  have hconfirm := hsight
  rw [FileScan.sightedKeys_eq] at hconfirm
  have hconfirm := (confirmEach_of_sighted hgrow hconfirm).resolve_left hsound'
  have hstart : (({} : FileScan).count { filesScanned := 1 }).spots = [] := rfl
  rw [hstart, List.nil_append] at hspots
  exact ⟨scan₁, scan₂, calls, v, hscan, hsight, hcommit, hgrow, hgrow', hsound, hsound',
    fun f hf => hdrops f (hfollow ▸ hf), hspots ▸ hconfirm⟩

/-- Saving the tasks leaves a file as it was when the commit reads it. -/
theorem Parts.readText {scan₁ scan₂ : FileScan} {calls : Nat}
    (h : job.Parts path file candidates w scan₁ scan₂ calls v s w') (hstill : w.Undisturbed path)
    (htext : w.disk.tree.readText path = .ok text) :
    w.Saved v ∧ v.disk.tree.readText path = .ok text := by
  have hsaved : ∀ {found : List (Text × Anchor)} {u : Workspace} {a : Unit},
      (job.reconciler.confirmEach found).Yields u a v → u.Saved v := by
    intro found
    induction found with
    | nil =>
      intro u a h
      obtain ⟨-, rfl⟩ := yields_pure.1 h
      exact .of_eq rfl rfl
    | cons sighting found ih =>
      intro u a h
      obtain ⟨answer, u₁, hconfirm, hrest⟩ := Reconciler.yields_confirmEach_cons h
      exact (Reconciler.others_of_confirm hconfirm).1.trans (ih hrest)
  have hsame : w.Saved { w with calls } := .of_eq rfl rfl
  have hall := hsame.trans (hsaved h.confirms)
  exact ⟨hall, (hall.agreeAt hstill).readText.trans htext⟩

/-- Two visits of a file have the same outcome when they find the same name and text, the same keys
of tasks, and the same anchors of these in the file. -/
theorem visitFile_unique (hcreate : job.options.createTasks = false) (hknows : v.knows = w.knows)
    (hfile : v.disk.tree.displayPath path job.repo = w.disk.tree.displayPath path job.repo)
    (htext : v.disk.tree.readText path = w.disk.tree.readText path)
    (hstill : w.Undisturbed path) (hstill' : v.Undisturbed path)
    (hmine : ∀ file, w.disk.tree.displayPath path job.repo = .ok file →
      ∀ key, SameMine file key w v)
    (h : (job.visitFile path grammar).Yields w s w')
    (h' : (job.visitFile path grammar).Yields v s' v')
    (hs : ¬s.counts.Failed) (hs' : ¬s'.counts.Failed) : s.Agrees s' := by
  obtain ⟨file, hdisplay, hcases⟩ := yields_visitFile h
  cases hread : w.disk.tree.readText path with
  | error e =>
    have hunread : ∀ {u u' : Workspace} {t : FileScan}, u.disk.tree.readText path = .error e →
        (job.visitFile path grammar).Yields u t u' →
        ∃ warning, t = (({} : FileScan).warn warning).count { filesSkipped := 1 } := by
      intro u u' t herror hvisit
      obtain ⟨_, -, ⟨_, warning, -, -, rfl⟩ | ⟨_, _, _, _, _, hok, -⟩⟩ := yields_visitFile hvisit
      · exact ⟨warning, rfl⟩
      · rw [herror] at hok
        cases hok
    obtain ⟨warning, rfl⟩ := hunread hread h
    obtain ⟨warning', rfl⟩ := hunread (htext.trans hread) h'
    exact ⟨rfl, rfl, rfl⟩
  | ok text =>
    obtain ⟨scan₁, scan₂, calls, u, hparts⟩ := exists_parts hcreate hdisplay hread h hs
    obtain ⟨scan₁', scan₂', calls', u', hparts'⟩ :=
      exists_parts hcreate (hfile.trans hdisplay) (htext.trans hread) h' hs'
    obtain rfl := candidates_unique (fun c _ => ne_create_of_disabled hcreate w.knows c) hknows
      grow_start hparts.scanned hparts'.scanned hparts.sound hparts'.sound
    have hkeys : ∀ key ∈ scan₁.sightedKeys,
        SameMine file key { w with calls } { v with calls := calls' } :=
      fun key _ => hmine file hdisplay key
    obtain rfl := keys_unique (nodup_eraseDups _) hparts.grow hkeys hparts.keys hparts'.keys
      hparts.sound' hparts'.sound'
    obtain ⟨hsaved, hu⟩ := hparts.readText hstill hread
    obtain ⟨hsaved', hu'⟩ := hparts'.readText hstill' (htext.trans hread)
    obtain ⟨preview, hpreview, hdone⟩ :=
      outcome_of_commit hparts.grow' (hsaved.knows ▸ hparts.drops) hparts.commit hs
    obtain ⟨preview', hpreview', hdone'⟩ :=
      outcome_of_commit hparts'.grow' (hsaved'.knows ▸ hparts'.drops) hparts'.commit hs'
    rw [hpreview] at hpreview'
    cases hpreview'
    cases hdry : job.options.dryRun with
    | true =>
      rw [hdry, if_pos rfl] at hdone hdone'
      rw [hdone.1, hdone'.1]
      exact .refl _
    | false =>
      rw [hdry, if_neg Bool.false_ne_true] at hdone hdone'
      obtain ⟨result, _, _, hcommit, -, hagrees⟩ := hdone
      obtain ⟨result', _, _, hcommit', -, hagrees'⟩ := hdone'
      have hsame : result' = result := by
        have hempty : scan₂.edits.edits = [] →
            scan₂.edits.apply text = .ok ⟨Line.split text, [], []⟩ := by
          intro hnone
          rw [EditQueue.apply, EditQueue.ordered, hnone, List.mergeSort_nil]
          rfl
        rcases (EditQueue.yields_commit hu hcommit).1 with ⟨hnone, rfl⟩ | ⟨made, hmade, rfl⟩ <;>
          rcases (EditQueue.yields_commit hu' hcommit').1 with ⟨hnone', rfl⟩ | ⟨made', hmade', rfl⟩
        · rfl
        · rw [hempty hnone] at hmade'
          cases hmade'
          rfl
        · rw [hempty hnone'] at hmade
          cases hmade
          rfl
        · rw [hmade] at hmade'
          cases hmade'
          rfl
      rw [hsame] at hagrees'
      exact hagrees.symm.trans hagrees'

end Visit

end ScanJob

end TodoTracker
