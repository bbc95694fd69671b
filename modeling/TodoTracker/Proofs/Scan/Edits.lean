import TodoTracker.Proofs.Marker.Delimiter
import TodoTracker.Proofs.Scan.EditFree
import TodoTracker.Proofs.Scan.File

/-!
# The edits of a scanned file

The candidates of a file are gone through in the order of its lines and columns, so the splices of a
marker are queued behind those of the markers in front of it. They stay in the text of their marker,
whether its key is written or taken out, and a scan of a file never fails on them.
-/

set_option autoImplicit false

namespace TodoTracker

open Work Work.EditFreeAt

namespace FileScan

variable (scan : FileScan)

@[simp] theorem edits_count (counts : Counts) : (scan.count counts).edits = scan.edits := rfl

@[simp] theorem edits_addMark (item : ScanItem) (followUp : FollowUp) :
    (scan.addMark item followUp).edits = scan.edits := rfl

@[simp] theorem edits_previewed (preview : List LineChange) :
    (scan.previewed preview).edits = scan.edits := rfl

end FileScan

namespace ScanJob

variable {job : ScanJob} {file : Text} {path : Path} {scan scan' : FileScan} {c : Candidate}
  {w w' : Workspace}

/-- The edits that a scan may queue for a marker: those that write the key of a new task and take
the attributes out, and the one that takes a stale key out. -/
inductive Owns (job : ScanJob) (c : Candidate) (s : Splice) : Prop
  | creation (key : Text) (h : s ∈ job.creationSplices c key)
  | removal (found : CarriedKey) (hcarried : c.carried = some found)
      (hwritten : found.form.isWritten = true)
      (h : s = Splice.keyRemoval c.text found c.segmentStop)

theorem creationSplices_inTurn {patterns : List Pattern} (h : c.Marker patterns) (key : Text) :
    Splice.InTurn c.signalStop c.segmentStop (job.creationSplices c key) := by
  rw [creationSplices]
  apply Splice.insertion_inTurn h.signalStop_le
  split
  · exact Splice.attributeRemovals_inTurn h.signalStop_le h.segmentStop_le h.solid
  · exact .nil _ _

/-- A mention asks for no edit. -/
theorem signal_of_edits {known : Text → Bool} (h : (job.actionOf known c).edits = true) :
    c.signal.isSome = true := by
  by_contra hmention
  have hmention : c.isMention = true := by simpa [Candidate.isMention] using hmention
  rw [actionOf, Decision.decide] at h
  split at h
  · simp [Decision.withoutKey, hmention, Decision.ignored, Action.edits] at h
  · rw [Decision.withKey, hmention] at h
    split at h
    · split at h <;> cases h
    · simp [Decision.ignored, Action.edits] at h

theorem signal_of_create {known : Text → Bool} (h : job.actionOf known c = .create) :
    c.signal.isSome = true := by
  have hedits : (job.actionOf known c).edits = true := by
    rw [h]
    rfl
  exact signal_of_edits hedits

/-- A key that is pruned is in one of the written forms. -/
theorem written_of_prune {known : Text → Bool} {found : CarriedKey}
    (h : job.actionOf known c = .prune) (hcarried : c.carried = some found) :
    found.form.isWritten = true := by
  rw [actionOf, Decision.decide, Candidate.key, hcarried] at h
  dsimp only [Option.map_some] at h
  rw [Decision.withKey, hcarried] at h
  split at h
  · split at h <;> cases h
  · split at h
    · rename_i hprune
      simp at hprune
      exact hprune.1.2
    · split at h <;> cases h

/-- The edits of a queue can take those of the next candidate `c`. -/
def Takes (job : ScanJob) (done : List Candidate) (edits : EditQueue) (c : Candidate) : Prop :=
  c.signal.isSome → ∀ file splices, Splice.InTurn c.signalStop c.segmentStop splices →
    (∀ s ∈ splices, job.Owns c s) →
      ∃ queue, edits.add file ⟨c.line, c.text, splices⟩ = .ok queue ∧
        queue.OfMarkers job.Owns (done ++ [c])

section Step

variable {done : List Candidate} {item : ScanItem} {known : Text → Bool} {edits : EditQueue}

theorem Takes.creation (h : job.Takes done edits c)
    (hmarker : c.signal.isSome → c.Marker job.scanner.patterns)
    (haction : job.actionOf known c = .create) (key file : Text) :
    ∃ queue, edits.add file ⟨c.line, c.text, job.creationSplices c key⟩ = .ok queue ∧
      queue.OfMarkers job.Owns (done ++ [c]) := by
  have hsignal := signal_of_create haction
  exact h hsignal file _ (creationSplices_inTurn (hmarker hsignal) key) fun s hs => .creation key hs

theorem Takes.removal (h : job.Takes done edits c)
    (hmarker : c.signal.isSome → c.Marker job.scanner.patterns)
    (haction : job.actionOf known c = .prune) {found : CarriedKey}
    (hcarried : c.carried = some found) (file : Text) :
    ∃ queue, edits.add file
        ⟨c.line, c.text, [Splice.keyRemoval c.text found c.segmentStop]⟩ = .ok queue ∧
      queue.OfMarkers job.Owns (done ++ [c]) := by
  have hedits : (job.actionOf known c).edits = true := by
    rw [haction]
    rfl
  have hsignal := signal_of_edits hedits
  have hm := hmarker hsignal
  have hwritten := written_of_prune haction hcarried
  apply h hsignal file
  · exact Splice.keyRemoval_inTurn hm.signalStop_le hm.segmentStop_le hm.solid
      (hm.carried ▸ hcarried) hwritten
  · intro s hs
    exact .removal found hcarried hwritten (List.mem_singleton.1 hs)

theorem editFree_takeKey (seed : Seed) : EditFreeAt (job.takeKey seed) w := by
  rw [takeKey]
  split
  · exact .pure _
  · exact (Tasks.editFree_create _).attempt

theorem editFree_openTask
    (h : ∀ key, ∃ queue, scan.edits.add path.text ⟨c.line, c.text, job.creationSplices c key⟩ =
      .ok queue) :
    EditFreeAt (job.openTask file path scan c item) w := by
  apply (editFree_takeKey _).andThen
  intro answer w
  cases answer with
  | error e => exact .pure _
  | ok key =>
    obtain ⟨queue, hadd⟩ := h key
    dsimp only
    rw [hadd]
    exact (Work.EditFreeAt.ofExcept (.ok queue)).andThen fun _ _ => .pure _

theorem edits_of_openTask (h : (job.openTask file path scan c item).Yields w scan' w') :
    scan'.edits = scan.edits ∨ ∃ key queue, scan'.edits = queue ∧
      scan.edits.add path.text ⟨c.line, c.text, job.creationSplices c key⟩ = .ok queue := by
  rw [openTask, yields_bind] at h
  obtain ⟨answer, w₁, -, h⟩ := h
  cases answer with
  | error e =>
    obtain ⟨rfl, -⟩ := yields_pure.1 h
    exact .inl rfl
  | ok key =>
    obtain ⟨queue, w₂, hadd, h⟩ := yields_bind.1 h
    obtain ⟨rfl, -⟩ := yields_pure.1 h
    exact .inr ⟨key, queue, rfl, (yields_ofExcept.1 hadd).1⟩

theorem editFree_scanCandidate (h : job.Takes done scan.edits c)
    (hmarker : c.signal.isSome → c.Marker job.scanner.patterns) :
    EditFreeAt (job.scanCandidate file path scan c) w := by
  have hdecide : EditFreeAt (job.decide c) w := by
    rw [decide]
    split
    · exact .pure _
    · exact (Tasks.editFree_has _).andThen fun _ _ => .pure _
  rw [scanCandidate]
  apply hdecide.attempt.bind
  intro answer w' hyields
  rcases yields_attempt hyields with ⟨decision, rfl, hdecision⟩ | ⟨e, rfl⟩
  · obtain ⟨rfl, -⟩ := yields_decide hdecision
    dsimp only
    split
    · rename_i haction
      apply editFree_openTask
      intro key
      obtain ⟨queue, hadd, -⟩ := h.creation hmarker haction key path.text
      exact ⟨queue, hadd⟩
    · exact .pure _
    · rename_i found haction hcarried
      obtain ⟨queue, hadd, -⟩ := h.removal hmarker haction hcarried path.text
      rw [pruneKey, FileScan.edits_count, hadd]
      exact (Work.EditFreeAt.ofExcept (.ok queue)).andThen fun _ _ => .pure _
    · exact .pure _
  · exact .pure _

theorem ofMarkers_scanCandidate (h : job.Takes done scan.edits c)
    (hmarker : c.signal.isSome → c.Marker job.scanner.patterns)
    (hqueue : scan.edits.OfMarkers job.Owns done)
    (hyields : (job.scanCandidate file path scan c).Yields w scan' w') :
    scan'.edits.OfMarkers job.Owns (done ++ [c]) := by
  have hkept := hqueue.mono (List.subset_append_left done [c])
  cases scanned_of_yields hyields with
  | refused item => exact hkept
  | opened haction hopen =>
    rcases edits_of_openTask hopen with heq | ⟨key, queue, heq, hadd⟩
    · rw [heq]
      exact hkept
    · obtain ⟨queue', hadd', hnew⟩ := h.creation hmarker haction key path.text
      rw [FileScan.edits_count, hadd'] at hadd
      cases hadd
      rw [heq]
      exact hnew
  | pruned _ haction hcarried _ hadd =>
    obtain ⟨queue', hadd', hnew⟩ := h.removal hmarker haction hcarried path.text
    rw [hadd'] at hadd
    cases hadd
    exact hnew
  | noted => exact hkept

end Step

/-- Candidates as a scan finds them: the markers of a line see the same text and come one after the
other. -/
structure InOrder (job : ScanJob) (candidates : List Candidate) : Prop where
  marker : ∀ c ∈ candidates, c.signal.isSome → c.Marker job.scanner.patterns
  text : ∀ c ∈ candidates, ∀ d ∈ candidates, c.signal.isSome → d.signal.isSome →
    c.line = d.line → c.text = d.text
  before : candidates.Pairwise fun c d => c.line = d.line → c.Before d

theorem InOrder.takes {done rest : List Candidate} (h : job.InOrder (done ++ c :: rest))
    {edits : EditQueue} (hqueue : edits.OfMarkers job.Owns done) : job.Takes done edits c := by
  intro hsignal file splices hturn howns
  have hc : c ∈ done ++ c :: rest := by simp
  have hm := h.marker c hc hsignal
  apply hqueue.add file hsignal (Nat.le_of_lt hm.column_lt) _ _ hturn howns
  · intro d hd hline
    exact (List.pairwise_append.1 h.before).2.2 d hd c List.mem_cons_self hline
  · intro d hd hdsignal hline
    exact h.text d (List.mem_append_left _ hd) c hc hdsignal hsignal hline

/-- What the candidates of a file queue, whichever of them come first. -/
theorem edits_of_candidates {done candidates : List Candidate}
    (h : job.InOrder (done ++ candidates)) (hqueue : scan.edits.OfMarkers job.Owns done) :
    EditFreeAt (candidates.foldlM (job.scanCandidate file path) scan) w ∧
      ∀ scan' w', (candidates.foldlM (job.scanCandidate file path) scan).Yields w scan' w' →
        scan'.edits.OfMarkers job.Owns (done ++ candidates) := by
  induction candidates generalizing done scan w with
  | nil =>
    refine ⟨.pure _, ?_⟩
    intro scan' w' hyields
    obtain ⟨rfl, -⟩ := yields_pure.1 hyields
    simpa using hqueue
  | cons c rest ih =>
    have htakes := h.takes hqueue
    have hmarker := h.marker c (by simp)
    have hnext : job.InOrder ((done ++ [c]) ++ rest) := by simpa using h
    constructor
    · rw [List.foldlM_cons]
      apply (editFree_scanCandidate htakes hmarker).bind
      intro scan₁ w₁ hfirst
      exact (ih hnext (ofMarkers_scanCandidate htakes hmarker hqueue hfirst)).1
    · intro scan' w' hyields
      obtain ⟨scan₁, w₁, hfirst, hrest⟩ := yields_foldlM_cons.1 hyields
      have hlast := (ih hnext (ofMarkers_scanCandidate htakes hmarker hqueue hfirst)).2 _ _ hrest
      simpa using hlast

theorem editFree_confirmKey (key : Text) : EditFreeAt (job.confirmKey file scan key) w := by
  rw [confirmKey]
  split
  · exact .pure _
  · apply (Reconciler.editFree_confirm _ _).attempt.andThen
    intro answer w
    split <;> exact .pure _

theorem edits_of_confirmKey {key : Text}
    (h : (job.confirmKey file scan key).Yields w scan' w') : scan'.edits = scan.edits := by
  rcases yields_confirmKey h with ⟨-, rfl, -⟩ | ⟨best, -, ⟨message, rfl⟩ | ⟨result, -, rfl⟩⟩
  · rfl
  · rfl
  · rfl

theorem editFree_finish (stale : List Int) (mark : Mark) :
    EditFreeAt (job.finish file stale scan mark) w := by
  rw [finish]
  split
  · exact .pure _
  · split
    · apply (Reconciler.editFree_confirm _ _).attempt.andThen
      intro answer w
      split <;> exact .pure _
    · apply (Tasks.editFree_remove _ _).attempt.andThen
      intro answer w
      split
      · exact .pure _
      · exact .pure _
    · exact .pure _

theorem editFree_commitEdits {Owns : Candidate → Splice → Prop} {markers : List Candidate}
    {queue : EditQueue} (h : queue.OfMarkers Owns markers) : EditFreeAt (queue.commit path) w := by
  rw [EditQueue.commit]
  split
  · exact .pure _
  · apply (look fun tree => tree.editFree_readText path).andThen
    intro text w
    apply (ofExcept (h.editFree_apply text)).andThen
    intro result w
    dsimp only
    split
    · exact (onDisk fun disk => disk.editFree_write path _).andThen fun _ _ => .pure _
    · exact .pure _

theorem editFree_commit {Owns : Candidate → Splice → Prop} {markers : List Candidate}
    (h : scan.edits.OfMarkers Owns markers) : EditFreeAt (job.commit file path scan) w := by
  apply (ofExcept h.editFree_preview).andThen
  intro preview w
  dsimp only
  split
  · exact .pure _
  · rw [FileScan.edits_previewed]
    apply (editFree_commitEdits h).attemptFile.andThen
    intro answer w
    split
    · exact .pure _
    · exact foldlM (fun mark _ scan _ => editFree_finish _ mark) _ _

/-- The candidates that a scan finds are in order. -/
theorem inOrder_scan {grammar : Grammar} (hg : grammar.Proper)
    (hwords : Signal.Solid job.scanner.words) (lines : List Text) :
    job.InOrder (job.scanner.scan lines grammar) := by
  constructor
  · intro c hc hsignal
    exact (Scanner.marker_of_mem_scan hwords hc hsignal).1
  · intro c hc d hd hcsignal hdsignal hline
    have hctext := (Scanner.marker_of_mem_scan hwords hc hcsignal).2
    have hdtext := (Scanner.marker_of_mem_scan hwords hd hdsignal).2
    rw [hline, hdtext] at hctext
    exact (Option.some.inj hctext).symm
  · exact Scanner.pairwise_before_scan hg fun w hw => (hwords w hw).1

theorem InOrder.sublist {candidates some : List Candidate} (h : job.InOrder candidates)
    (hsub : some.Sublist candidates) : job.InOrder some := by
  constructor
  · exact fun c hc => h.marker c (hsub.subset hc)
  · exact fun c hc d hd => h.text c (hsub.subset hc) d (hsub.subset hd)
  · exact h.before.sublist hsub

/-- What all candidates of a file queue. -/
theorem edits_of_all {candidates : List Candidate} (h : job.InOrder candidates)
    (hstart : scan.edits = .empty) :
    EditFreeAt (candidates.foldlM (job.scanCandidate file path) scan) w ∧
      ∀ scan' w', (candidates.foldlM (job.scanCandidate file path) scan).Yields w scan' w' →
        scan'.edits.OfMarkers job.Owns candidates := by
  rw [← List.nil_append candidates] at h
  exact edits_of_candidates h (hstart ▸ .empty)

/-- A scan of a file does not fail on its own edits: at any candidate, each line has one queued
edit, the splices of it lie in the texts of the markers that own them, and none of them reaches into
the next one. -/
theorem visitFile_edits {grammar : Grammar} (hg : grammar.Proper) {words : List Text}
    {patterns : List Pattern} {mentions : Bool}
    (hscanner : job.scanner = .make words patterns mentions) :
    (∀ path w e, ((job.visitFile path grammar).run w).1 = .error e → e.isEdit = false) ∧
      ∀ file path text done w scan w', done <+: job.scanner.scan (Text.contents text) grammar →
        (done.foldlM (job.scanCandidate file path)
          (({} : FileScan).count { filesScanned := 1 })).Yields w scan w' →
        scan.edits.OfMarkers job.Owns done := by
  have hwords : Signal.Solid job.scanner.words := by
    rw [hscanner]
    exact Signal.solid_prepare words
  constructor
  · intro path w
    change EditFreeAt (job.visitFile path grammar) w
    apply (look fun tree => tree.editFree_displayPath path job.repo).andThen
    intro file w
    apply (look fun tree => tree.editFree_readText path).attemptFile.andThen
    intro answer w
    cases answer with
    | error message => exact .pure _
    | ok text =>
      have hin : job.InOrder _ := inOrder_scan hg hwords (Text.contents text)
      apply (edits_of_all hin rfl).1.bind
      intro scan₁ w₁ hscan
      have hqueued := (edits_of_all hin rfl).2 _ _ hscan
      apply (foldlM (fun key _ scan _ => editFree_confirmKey key) _ _).bind
      intro scan₂ w₂ hconfirmed
      have hedits : scan₂.edits = scan₁.edits :=
        foldlM_keeps (P := fun scan _ => scan.edits = scan₁.edits)
          (fun key _ scan _ scan' _ heq h => (edits_of_confirmKey h).trans heq) rfl hconfirmed
      rw [← hedits] at hqueued
      exact editFree_commit hqueued
  · intro file path text done w scan w' hdone hyields
    have hin := (inOrder_scan hg hwords (Text.contents text)).sublist hdone.sublist
    exact (edits_of_all hin rfl).2 scan w' hyields

/-- A stale key and a new task on one line, with attributes next to each other. -/
theorem visitFile_edits_two_markers :
    ∃ (job : ScanJob) (candidates : List Candidate) (scan : FileScan) (w : Workspace),
      job.scanner.scan (Text.contents "# TODO(AB-1) x BUG: y [a=1] [b=2]".toList)
        (.row "hash" "py" ["#"] []) = candidates ∧
      (candidates.foldlM (job.scanCandidate "a.py".toList (.ofText "a.py".toList))
        (({} : FileScan).count { filesScanned := 1 })).Yields
          (Workspace.inMemory .empty .empty) scan w ∧
      scan.edits.edits.map LineEdit.splices = [[⟨6, 12, []⟩, ⟨18, 18, "(PROJ-1)".toList⟩,
        ⟨21, 27, []⟩, ⟨27, 33, []⟩]] ∧
      scan.edits.OfMarkers job.Owns candidates := by
  obtain ⟨candidates, hcandidates⟩ : ∃ candidates : List Candidate, candidates =
      [⟨1, 2, "# TODO(AB-1) x BUG: y [a=1] [b=2]".toList, ⟨0, 33, 1, 33⟩, some "TODO".toList, 6, 15,
          some ⟨"AB-1".toList, 7, 11, .paren, 6, 12⟩, [], "x".toList⟩,
        ⟨1, 15, "# TODO(AB-1) x BUG: y [a=1] [b=2]".toList, ⟨0, 33, 1, 33⟩, some "BUG".toList, 18, 33,
          none, [("a".toList, "1".toList), ("b".toList, "2".toList)], "y".toList⟩] := ⟨_, rfl⟩
  obtain ⟨job, hjob⟩ : ∃ job : ScanJob, job =
      { repo := [], settings := {}, options := { createTasks := true }
        scanner := .make ({} : Settings).signalWords [ticketPattern] false, roots := []
        gitRoot := none, reconciler := ⟨[], 7, [], false⟩, inquiry := .start } := ⟨_, rfl⟩
  have hscanner : job.scanner = .make ({} : Settings).signalWords [ticketPattern] false := by
    rw [hjob]
  have hlines : Text.contents "# TODO(AB-1) x BUG: y [a=1] [b=2]".toList =
      ["# TODO(AB-1) x BUG: y [a=1] [b=2]".toList] := by cbv
  have hspans : (Grammar.row "hash" "py" ["#"] []).spans
      ["# TODO(AB-1) x BUG: y [a=1] [b=2]".toList] = [[⟨0, 33, 1, 33⟩]] := by
    decide +kernel
  have hspan : job.scanner.scanSpan 1 "# TODO(AB-1) x BUG: y [a=1] [b=2]".toList ⟨0, 33, 1, 33⟩ =
      candidates := by
    rw [hscanner, Scanner.make, prepare_default, hcandidates]
    decide +kernel
  have hscan : job.scanner.scan (Text.contents "# TODO(AB-1) x BUG: y [a=1] [b=2]".toList)
      (.row "hash" "py" ["#"] []) = candidates := by
    rw [hlines, Scanner.scan, hspans, List.zip_cons_cons, Scanner.scanFrom, Scanner.scanLine,
      List.flatMap_singleton, hspan, hcandidates]
    cbv
  obtain ⟨w, hw⟩ : ∃ w, w = Workspace.inMemory .empty .empty := ⟨_, rfl⟩
  have hrun : ((candidates.foldlM (job.scanCandidate "a.py".toList (.ofText "a.py".toList))
      (({} : FileScan).count { filesScanned := 1 })).run w).1.toOption.map
        (fun scan => scan.edits.edits.map LineEdit.splices) =
      some [[⟨6, 12, []⟩, ⟨18, 18, "(PROJ-1)".toList⟩, ⟨21, 27, []⟩, ⟨27, 33, []⟩]] := by
    rw [hcandidates, hw, hjob]
    decide +kernel
  have hsome := congrArg Option.isSome hrun
  rw [Option.isSome_map] at hsome
  obtain ⟨scan, hyields⟩ := exists_yields hsome
  rw [hyields] at hrun
  have hproper : (Grammar.row "hash" "py" ["#"] []).Proper := ⟨by decide, by decide⟩
  refine ⟨job, candidates, scan, _, hscan, hw ▸ hyields, Option.some.inj hrun, ?_⟩
  have hprefix : candidates <+: job.scanner.scan
      (Text.contents "# TODO(AB-1) x BUG: y [a=1] [b=2]".toList) (.row "hash" "py" ["#"] []) := by
    simp only [hscan, List.prefix_rfl]
  exact (visitFile_edits hproper hscanner).2 _ _ _ _ _ _ _ hprefix hyields

end ScanJob

end TodoTracker
