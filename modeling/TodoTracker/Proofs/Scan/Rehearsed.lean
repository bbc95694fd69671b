import TodoTracker.Proofs.Edit.Filled
import TodoTracker.Proofs.Scan.DryRun
import TodoTracker.Proofs.Scan.KeptKeys
import TodoTracker.Proofs.Scan.Marked
import TodoTracker.Proofs.Scan.Outcome

/-!
# The rehearsal of a file

A dry run settles the markers of a file as the scan that it rehearses does: as long as the file holds
neither a placeholder nor a new key, the same edits are queued for both, with the placeholder in the
places of the new keys. So the items agree, and the new keys fill the placeholders of their lines.
-/

set_option autoImplicit false

namespace TodoTracker

open Work

namespace ScanItem

/-- The keys of the tasks that were created for the markers of a line, among the items of a file. -/
def keysAt (items : List ScanItem) (line : Nat) : List Text :=
  items.filterMap fun item =>
    if item.line = line ∧ item.action = .create then item.taskKey else none

/-- What an item says about its marker and what was to be done about it. -/
def entry (item : ScanItem) : ScanItem :=
  { item with status := .skipped, taskKey := none, lineAfter := none, message := [] }

/-- An item of a dry run foretells one of a scan: both are about the same marker and the same
action, and the new line is that of the dry run with the keys of the line in place of the
placeholders. -/
structure Foretells (placeholder : Text) (keys : List Text) (item item' : ScanItem) : Prop where
  file : item'.file = item.file
  line : item'.line = item.line
  column : item'.column = item.column
  signal : item'.signal = item.signal
  existingKey : item'.existingKey = item.existingKey
  action : item'.action = item.action
  lineBefore : item'.lineBefore = item.lineBefore
  lineAfter : Option.Rel (Text.Filled placeholder keys) item.lineAfter item'.lineAfter

theorem Foretells.of_entry {placeholder : Text} {keys : List Text} {item item' : ScanItem}
    (h : item'.entry = item.entry)
    (hafter : Option.Rel (Text.Filled placeholder keys) item.lineAfter item'.lineAfter) :
    item.Foretells placeholder keys item' := by
  simp only [entry, mk.injEq] at h
  obtain ⟨hfile, hline, hcolumn, hsignal, hkey, haction, -, -, hbefore, -⟩ := h
  exact ⟨hfile, hline, hcolumn, hsignal, hkey, haction, hbefore, hafter⟩

end ScanItem

namespace EditQueue

variable {Owns : Candidate → Splice → Prop} {markers : List Candidate} {queue : EditQueue}

theorem OfMarkers.preview_eq (h : queue.OfMarkers Owns markers) :
    queue.preview = .ok (queue.ordered.map fun edit =>
      ⟨edit.number, edit.expected, Splice.applyOrdered edit.expected edit.splices⟩) := by
  have hall : ∀ edits : List LineEdit, (∀ edit ∈ edits, edit.OfMarkers Owns markers) →
      edits.mapM LineEdit.change = .ok (edits.map fun edit =>
        ⟨edit.number, edit.expected, Splice.applyOrdered edit.expected edit.splices⟩) := by
    intro edits hedits
    induction edits with
    | nil => rfl
    | cons edit edits ih =>
      rw [List.mapM_cons, (hedits edit List.mem_cons_self).change_eq,
        ih fun e he => hedits e (List.mem_cons_of_mem _ he)]
      rfl
  exact hall _ fun edit hedit => h.edits edit (mem_ordered.1 hedit)

/-- The splices of a line stay in the line and come in turn. -/
theorem OfMarkers.inTurn (h : queue.OfMarkers Owns markers)
    (hstop : ∀ c ∈ markers, c.signal.isSome → c.segmentStop ≤ c.text.length) {edit : LineEdit}
    (hedit : edit ∈ queue.edits) : Splice.InTurn 0 edit.expected.length edit.splices := by
  refine ⟨fun s hs => ?_, (h.edits edit hedit).pairwise⟩
  obtain ⟨c, hc, hsignal, -, htext, -, -, hle, hlast⟩ := (h.edits edit hedit).owner s hs
  exact ⟨Nat.zero_le _, hle, htext ▸ Nat.le_trans hlast (hstop c hc hsignal)⟩

/-- What a line becomes, if edits are queued for it. -/
def lineAfter? (queue : EditQueue) (line : Nat) : Option Text :=
  (queue.find? line).map fun edit => Splice.applyOrdered edit.expected edit.splices

theorem OfMarkers.find?_preview (h : queue.OfMarkers Owns markers) {preview : List LineChange}
    (hpreview : queue.preview = .ok preview) (line : Nat) :
    (preview.find? (·.number == (line : Int))).map LineChange.after = queue.lineAfter? line := by
  rw [h.preview_eq] at hpreview
  cases hpreview
  rw [lineAfter?, ← find?_ordered h.nodup, List.find?_map, Option.map_map]
  rfl

theorem OfMarkers.find?_eq_none_iff (h : queue.OfMarkers Owns markers) (number : Int) :
    queue.find? number = none ↔ queue.splicesAt number = [] := by
  rw [splicesAt]
  cases hfind : queue.find? number with
  | none => simp
  | some edit => simpa using (h.edits edit (List.mem_of_find?_eq_some hfind)).nonempty

theorem OfMarkers.expected (h : queue.OfMarkers Owns markers) {lines : List Text}
    (hlines : ∀ c ∈ markers, 1 ≤ c.line ∧ lines[c.line - 1]? = some c.text) {line : Nat}
    {edit : LineEdit} (hfind : queue.find? line = some edit) :
    lines[line - 1]? = some edit.expected := by
  have hedit := h.edits edit (List.mem_of_find?_eq_some hfind)
  obtain ⟨s, hs⟩ := List.exists_mem_of_ne_nil _ hedit.nonempty
  obtain ⟨c, hc, -, hline, htext, -⟩ := hedit.owner s hs
  have hnumber : edit.number = line := by simpa using List.find?_some hfind
  have hsame : c.line = line := Int.ofNat.inj (hline.trans hnumber)
  rw [← hsame, ← htext]
  exact (hlines c hc).2

/-- Where splices correspond, the new lines are the same but for the new keys. -/
theorem OfMarkers.filled {Owns' : Candidate → Splice → Prop} {queue' : EditQueue}
    {lines : List Text} {placeholder : Text} {keys : List Text}
    (h : queue.OfMarkers Owns markers) (h' : queue'.OfMarkers Owns' markers)
    (hlines : ∀ c ∈ markers, 1 ≤ c.line ∧ lines[c.line - 1]? = some c.text)
    (hstop : ∀ c ∈ markers, c.signal.isSome → c.segmentStop ≤ c.text.length) {line : Nat}
    (hsplices : Splice.Counterparts placeholder keys (queue.splicesAt line)
      (queue'.splicesAt line)) :
    Option.Rel (Text.Filled placeholder keys) (queue.lineAfter? line)
      (queue'.lineAfter? line) := by
  have hnone := hsplices.eq_nil_iff
  rw [← h.find?_eq_none_iff, ← h'.find?_eq_none_iff] at hnone
  rw [lineAfter?, lineAfter?]
  cases hfind : queue.find? line with
  | none =>
    rw [hnone.1 hfind]
    exact .none
  | some edit =>
    cases hfind' : queue'.find? line with
    | none =>
      rw [hnone.2 hfind'] at hfind
      cases hfind
    | some edit' =>
      have hsame : edit'.expected = edit.expected :=
        Option.some.inj ((h'.expected hlines hfind').symm.trans (h.expected hlines hfind))
      have hturn := h.inTurn hstop (List.mem_of_find?_eq_some hfind)
      have hturn' := h'.inTurn hstop (List.mem_of_find?_eq_some hfind')
      rw [splicesAt, splicesAt, hfind, hfind'] at hsplices
      rw [hsame] at hturn'
      refine .some ?_
      dsimp only
      rw [hsame]
      exact hsplices.filled hturn hturn'

end EditQueue

namespace Mark

/-- A mark without what came of it. -/
def asked (mark : Mark) : Mark :=
  { mark with item := { mark.item with status := .skipped, message := [] } }

/-- Marks of the same marker, before it is known what their lines become. -/
structure Twin (mark mark' : Mark) : Prop where
  entry : mark'.item.entry = mark.item.entry
  waits : mark'.followUp.waits = mark.followUp.waits
  after : mark.item.lineAfter = none
  after' : mark'.item.lineAfter = none

theorem twin_asked_iff {mark mark' : Mark} : mark.asked.Twin mark'.asked ↔ mark.Twin mark' :=
  ⟨fun h => ⟨h.entry, h.waits, h.after, h.after'⟩, fun h => ⟨h.entry, h.waits, h.after, h.after'⟩⟩

/-- The item of a mark with what its line becomes. -/
def shown (edits : EditQueue) (mark : Mark) : ScanItem :=
  if mark.followUp.waits then { mark.item with lineAfter := edits.lineAfter? mark.item.line }
  else mark.item

theorem keysAt_shown (edits : EditQueue) (marks : List Mark) (line : Nat) :
    ScanItem.keysAt (marks.map (shown edits)) line = ScanItem.keysAt (marks.map Mark.item) line := by
  rw [ScanItem.keysAt, ScanItem.keysAt, List.filterMap_map, List.filterMap_map]
  refine congrArg (List.filterMap · marks) (funext fun mark => ?_)
  dsimp only [Function.comp_apply]
  rw [shown]
  split <;> rfl

/-- When their lines become the same but for the new keys, the items foretell each other. -/
theorem Twin.foretells {mark mark' : Mark} {edits edits' : EditQueue} {placeholder : Text}
    {keys : List Text} (h : mark.Twin mark')
    (hafter : Option.Rel (Text.Filled placeholder keys) (edits.lineAfter? mark.item.line)
      (edits'.lineAfter? mark.item.line)) :
    (mark.shown edits).Foretells placeholder keys (mark'.shown edits') := by
  have hline : mark'.item.entry.line = mark.item.entry.line := congrArg ScanItem.line h.entry
  change mark'.item.line = mark.item.line at hline
  rw [shown, shown, h.waits, hline]
  split
  · exact .of_entry h.entry hafter
  · refine .of_entry h.entry ?_
    rw [h.after, h.after']
    exact .none

end Mark

namespace FileScan

variable {scan scan' next next' : FileScan} {placeholder : Text}

/-- The keys of the tasks that were created for the markers of a line. -/
def keysAt (scan : FileScan) (line : Nat) : List Text :=
  ScanItem.keysAt (scan.marks.map Mark.item) line

theorem keysAt_congr (h : next.marks.map Mark.asked = scan.marks.map Mark.asked) (line : Nat) :
    next.keysAt line = scan.keysAt line := by
  have hasked : ∀ scan : FileScan, scan.keysAt line =
      ScanItem.keysAt ((scan.marks.map Mark.asked).map Mark.item) line := by
    intro scan
    rw [keysAt, ScanItem.keysAt, ScanItem.keysAt, List.filterMap_map, List.map_map,
      List.filterMap_map]
    rfl
  rw [hasked, hasked, h]

/-- A dry run of a file and the scan that it rehearses have the same marks, and the same edits but
for the new keys. -/
structure Twins (placeholder : Text) (scan scan' : FileScan) : Prop where
  marks : List.Forall₂ Mark.Twin scan.marks scan'.marks
  splices : ∀ line : Nat, Splice.Counterparts placeholder (scan'.keysAt line)
    (scan.edits.splicesAt line) (scan'.edits.splicesAt line)

/-- Marks of the same marker are added to both scans, with splices that correspond. -/
theorem Twins.extend {mark mark' : Mark} {added added' : Nat → List Splice}
    (h : scan.Twins placeholder scan') (hmarks : next.marks = scan.marks ++ [mark])
    (hmarks' : next'.marks = scan'.marks ++ [mark']) (hmark : mark.Twin mark')
    (hadded : ∀ line, Splice.Counterparts placeholder (ScanItem.keysAt [mark'.item] line)
      (added line) (added' line))
    (hedits : ∀ line : Nat, next.edits.splicesAt line = scan.edits.splicesAt line ++ added line)
    (hedits' : ∀ line : Nat,
      next'.edits.splicesAt line = scan'.edits.splicesAt line ++ added' line) :
    next.Twins placeholder next' := by
  refine ⟨?_, fun line => ?_⟩
  · rw [hmarks, hmarks']
    exact List.rel_append h.marks (.cons hmark .nil)
  · have hkeys : next'.keysAt line = scan'.keysAt line ++ ScanItem.keysAt [mark'.item] line := by
      rw [keysAt, hmarks', List.map_append, ScanItem.keysAt, List.filterMap_append]
      rfl
    rw [hkeys, hedits, hedits']
    exact (h.splices line).append (hadded line)

theorem Twins.congr (h : scan.Twins placeholder scan')
    (hasked : next.marks.map Mark.asked = scan.marks.map Mark.asked)
    (hasked' : next'.marks.map Mark.asked = scan'.marks.map Mark.asked)
    (hedits : next.edits = scan.edits) (hedits' : next'.edits = scan'.edits) :
    next.Twins placeholder next' := by
  refine ⟨?_, fun line => ?_⟩
  · have hforall : ∀ {l l' : List Mark}, List.Forall₂ Mark.Twin l l' ↔
        List.Forall₂ Mark.Twin (l.map Mark.asked) (l'.map Mark.asked) := by
      intro l l'
      simp only [List.forall₂_map_left_iff, List.forall₂_map_right_iff, Mark.twin_asked_iff]
    rw [hforall, hasked, hasked', ← hforall]
    exact h.marks
  · rw [keysAt_congr hasked', hedits, hedits']
    exact h.splices line

/-- None of the marks shows yet what its line becomes. -/
theorem Twins.lineAfter (h : scan.Twins placeholder scan') :
    (∀ mark ∈ scan.marks, mark.item.lineAfter = none) ∧
      ∀ mark ∈ scan'.marks, mark.item.lineAfter = none := by
  have hflip : List.Forall₂ (flip Mark.Twin) scan'.marks scan.marks := h.marks.flip
  exact ⟨((List.forall₂_and_left _ _).1 (h.marks.imp fun _ _ htwin => ⟨htwin.after, htwin⟩)).1,
    ((List.forall₂_and_left _ _).1 (hflip.imp fun _ _ htwin => ⟨Mark.Twin.after' htwin, htwin⟩)).1⟩

/-- Where a preview is shown, the items of marks that wait have what their lines become. -/
theorem items_previewed {Owns : Candidate → Splice → Prop} {markers : List Candidate}
    (h : scan.edits.OfMarkers Owns markers) (hafter : ∀ mark ∈ scan.marks, mark.item.lineAfter = none)
    {preview : List LineChange} (hpreview : scan.edits.preview = .ok preview) :
    (scan.previewed preview).marks.map Mark.item = scan.marks.map (Mark.shown scan.edits) := by
  rw [previewed, List.map_map]
  refine List.map_congr_left fun mark hmark => ?_
  have hfind := h.find?_preview hpreview mark.item.line
  dsimp only [Function.comp_apply]
  rw [Mark.shown, ← hfind]
  cases mark.followUp.waits with
  | false => rfl
  | true =>
    simp only [Bool.not_true, Bool.false_eq_true, if_false, if_true]
    split
    · rename_i hnone
      rw [hnone, Option.map_none, ← hafter mark hmark]
    · rename_i change hchange
      rw [hchange, Option.map_some]

theorem dryRun_previewed (scan : FileScan) (preview : List LineChange) :
    (scan.previewed preview).dryRun = scan.dryRun.previewed preview := by
  rw [dryRun, previewed, dryRun, previewed, List.map_map, List.map_map]
  refine congrArg (FileScan.mk · _ _ _) (List.map_congr_left fun mark _ => ?_)
  dsimp only [Function.comp_apply]
  cases hwaits : mark.followUp.waits with
  | false => simp [hwaits]
  | true => cases hfind : preview.find? (·.number == (mark.item.line : Int)) <;> simp [hwaits, hfind]

theorem asked_dryRun (scan : FileScan) :
    scan.dryRun.marks.map Mark.asked = scan.marks.map Mark.asked := by
  rw [dryRun, List.map_map]
  refine List.map_congr_left fun mark _ => ?_
  dsimp only [Function.comp_apply]
  split <;> rfl

theorem keysAt_of_not_create {item : ScanItem} (h : item.action ≠ .create) (line : Nat) :
    ScanItem.keysAt [item] line = [] := by
  simp [ScanItem.keysAt, h]

theorem Twins.count (h : scan.Twins placeholder scan') (counts counts' : Counts) :
    (scan.count counts).Twins placeholder (scan'.count counts') :=
  ⟨h.marks, h.splices⟩

/-- The same item is added to both scans, and no edit with it. -/
theorem Twins.addMark (h : scan.Twins placeholder scan') {item : ScanItem}
    (hafter : item.lineAfter = none) (haction : item.action ≠ .create) (followUp : FollowUp) :
    (scan.addMark item followUp).Twins placeholder (scan'.addMark item followUp) := by
  refine h.extend rfl rfl ⟨rfl, rfl, hafter, hafter⟩ (fun line => ?_)
    (fun line => (List.append_nil _).symm) fun line => (List.append_nil _).symm
  rw [keysAt_of_not_create haction]
  exact .nil

end FileScan

namespace ScanJob

variable {job : ScanJob} {file text key : Text} {path : Path} {grammar : Grammar} {c : Candidate}
  {scan scan' s s' : FileScan} {u v w w' : Workspace}

/-- The dry run of a scan. -/
def rehearsal (job : ScanJob) : ScanJob :=
  { job with
    options := { job.options with dryRun := true }
    reconciler := { job.reconciler with dryRun := true } }

/-- The key that a dry run shows in the place of a new one. -/
def placeholder (job : ScanJob) : Text := job.settings.project ++ "-NEW".toList

/-- A dry run queues the splices that write the placeholder. -/
theorem yields_openTask_rehearsal {item : ScanItem}
    (h : (job.rehearsal.openTask file path scan c item).Yields w s w') :
    ∃ queue, scan.edits.add path.text
        ⟨c.line, c.text, job.creationSplices c job.placeholder⟩ = .ok queue ∧
      s = ({ scan with edits := queue }.count { tasksCreated := 1 }).addMark
        { item with taskKey := some job.placeholder, status := .created }
        (.anchor job.placeholder) := by
  have hdry : job.rehearsal.options.dryRun = true := rfl
  rw [openTask, takeKey, if_pos hdry, pure_bind] at h
  dsimp only at h
  obtain ⟨queue, _, hadd, hdone⟩ := yields_bind.1 h
  obtain ⟨hqueue, rfl⟩ := yields_ofExcept.1 hadd
  obtain ⟨rfl, rfl⟩ := yields_pure.1 hdone
  exact ⟨queue, hqueue, rfl⟩

theorem counterparts_creationSplices
    (hformat : job.settings.insertionFormat = "(\x7bkey\x7d)".toList) {placeholder : Text}
    (habsent : KeyToken.occursIn c.text placeholder = false)
    (habsent' : KeyToken.occursIn c.text key = false) :
    Splice.Counterparts placeholder [key] (job.creationSplices c placeholder)
      (job.creationSplices c key) := by
  have hwriting : ∀ key, KeyToken.occursIn c.text key = false →
      Splice.keyInsertion? c.text c.signalStop key job.settings.insertionFormat =
        some (Splice.writing key c.signalStop) := by
    intro key hkey
    rw [Splice.keyInsertion?, hkey, hformat, if_neg Bool.false_ne_true]
    rfl
  rw [creationSplices, creationSplices, hwriting _ habsent, hwriting _ habsent']
  exact .written key c.signalStop (.refl placeholder _)

/-- A key that the text does not have is not in any of its lines. -/
theorem occursIn_eq_false (hline : c.text ∈ text.contents)
    (habsent : Text.includes text key = false) : KeyToken.occursIn c.text key = false := by
  cases hoccurs : KeyToken.occursIn c.text key with
  | false => rfl
  | true =>
    rw [Text.includes_of_mem_contents hline (KeyToken.infix_of_occursIn hoccurs)] at habsent
    cases habsent

section Twins

variable (hwet : job.options.dryRun = false)
  (hformat : job.settings.insertionFormat = "(\x7bkey\x7d)".toList)
  (hfree : Text.includes text job.placeholder = false) (hline : c.text ∈ text.contents)
include hwet hformat hfree hline

/-- The dry run queues the placeholder where the scan queues the key of the task that it has
created. -/
theorem twins_of_openTask {item : ScanItem} (hitem : item.line = c.line)
    (haction : item.action = .create) (hafter : item.lineAfter = none)
    (hstart : Counts.Grow {} scan'.counts)
    (hnew : ∀ key, w.knows key = false → w'.knows key = true → Text.includes text key = false)
    (htwins : scan.Twins job.placeholder scan')
    (h : (job.rehearsal.openTask file path scan c item).Yields u s v)
    (h' : (job.openTask file path scan' c item).Yields w s' w') (hs' : ¬s'.counts.Failed) :
    s.Twins job.placeholder s' := by
  obtain ⟨queue, hadd, rfl⟩ := yields_openTask_rehearsal h
  rcases openTask_cases hwet h' with ⟨e, failed, -, -, rfl⟩ | ⟨key, queue', hcreate, hadd', rfl⟩
  · exact absurd (.inl (Int.lt_add_one_of_le hstart.unresolved)) hs'
  obtain ⟨hfresh, hkeys⟩ := Tasks.yields_create hcreate
  have habsent : Text.includes text key = false := by
    refine hnew key ?_ (Workspace.knows_eq_true_iff.2 ((hkeys key).2 (.inl rfl)))
    rwa [← Bool.not_eq_true, Workspace.knows_eq_true_iff]
  refine htwins.extend rfl rfl ⟨rfl, rfl, hafter, hafter⟩ (fun line => ?_)
    (fun line => EditQueue.splicesAt_add hadd line) fun line => EditQueue.splicesAt_add hadd' line
  dsimp only [ScanItem.keysAt]
  by_cases hhere : c.line = line
  · rw [if_pos (by exact congrArg Nat.cast hhere), if_pos (by exact congrArg Nat.cast hhere)]
    simpa [hitem, hhere, haction] using counterparts_creationSplices hformat
      (occursIn_eq_false hline hfree) (occursIn_eq_false hline habsent)
  · rw [if_neg (by simpa using hhere), if_neg (by simpa using hhere)]
    simpa [hitem, hhere] using Splice.Counterparts.nil

/-- The dry run does the same about a candidate, when both have decided the same. -/
theorem twins_of_act {decision : Decision} (hstart : Counts.Grow {} scan'.counts)
    (hnew : ∀ key, w.knows key = false → w'.knows key = true → Text.includes text key = false)
    (htwins : scan.Twins job.placeholder scan')
    (h : (job.rehearsal.act file path scan c decision).Yields u s v)
    (h' : (job.act file path scan' c decision).Yields w s' w') (hs' : ¬s'.counts.Failed) :
    s.Twins job.placeholder s' := by
  rw [act] at h h'
  cases haction : decision.action with
  | create =>
    rw [haction] at h h'
    exact twins_of_openTask hwet hformat hfree hline rfl haction rfl hstart hnew htwins h h' hs'
  | confirm =>
    have hne : decision.action ≠ .create := by simp [haction]
    cases hcarried : c.carried <;>
    · rw [haction, hcarried] at h h'
      obtain ⟨rfl, -⟩ := yields_pure.1 h
      obtain ⟨rfl, -⟩ := yields_pure.1 h'
      exact htwins.addMark rfl hne _
  | prune =>
    have hne : decision.action ≠ .create := by simp [haction]
    cases hcarried : c.carried with
    | none =>
      rw [haction, hcarried] at h h'
      obtain ⟨rfl, -⟩ := yields_pure.1 h
      obtain ⟨rfl, -⟩ := yields_pure.1 h'
      exact htwins.addMark rfl hne _
    | some found =>
      rw [haction, hcarried] at h h'
      obtain ⟨queue, hadd, rfl, -⟩ := yields_pruneKey h
      obtain ⟨queue', hadd', rfl, -⟩ := yields_pruneKey h'
      refine htwins.extend rfl rfl ⟨rfl, rfl, rfl, rfl⟩ (fun line => ?_)
        (fun line => EditQueue.splicesAt_add hadd line) fun line => EditQueue.splicesAt_add hadd' line
      rw [FileScan.keysAt_of_not_create hne]
      exact .refl _ _
  | ignore =>
    have hne : decision.action ≠ .create := by simp [haction]
    rw [haction] at h h'
    cases hcarried : c.carried <;>
    · rw [hcarried] at h h'
      obtain ⟨rfl, -⟩ := yields_pure.1 h
      obtain ⟨rfl, -⟩ := yields_pure.1 h'
      exact htwins.addMark rfl hne _

end Twins

section Ending

/-- Confirming keys shows in the status and the message of items only. -/
theorem asked_of_confirmKey (h : (job.confirmKey file scan key).Yields w s w') :
    s.marks.map Mark.asked = scan.marks.map Mark.asked := by
  rcases yields_confirmKey h with ⟨-, rfl, -⟩ | ⟨best, -, ⟨message, rfl⟩ | ⟨result, -, rfl⟩⟩
  · rfl
  · refine (List.map_map ..).trans (List.map_congr_left fun mark _ => ?_)
    dsimp only [Function.comp_apply]
    split <;> rfl
  · refine (List.map_map ..).trans (List.map_congr_left fun mark _ => ?_)
    dsimp only [Function.comp_apply]
    split
    · rfl
    · split
      · rw [Mark.anchored]
        split
        · rfl
        · split <;> rfl
      · rfl

theorem asked_of_confirmKeys {keys : List Text}
    (h : (keys.foldlM (job.confirmKey file) scan).Yields w s w') :
    s.marks.map Mark.asked = scan.marks.map Mark.asked :=
  foldlM_keeps (P := fun s _ => s.marks.map Mark.asked = scan.marks.map Mark.asked)
    (fun _ _ _ _ _ _ hasked hstep => (asked_of_confirmKey hstep).trans hasked) rfl h

/-- Finishing a mark has failed, or changes no item. -/
theorem marks_of_finish {stale : List Int} {mark : Mark} (hstart : Counts.Grow {} scan.counts)
    (h : (job.finish file stale scan mark).Yields w s w') (hs : ¬s.counts.Failed) :
    s.marks = scan.marks := by
  cases finished_of_yields h with
  | left => exact absurd (.inl (Int.lt_add_one_of_le hstart.unresolved)) hs
  | unanchored => exact absurd (.inl (Int.lt_add_one_of_le hstart.unresolved)) hs
  | dropped => split <;> rfl
  | _ => rfl

theorem marks_of_foldlM_finish {stale : List Int} {marks : List Mark}
    (hstart : Counts.Grow {} scan.counts)
    (h : (marks.foldlM (job.finish file stale) scan).Yields w s w') (hs : ¬s.counts.Failed) :
    s.marks = scan.marks := by
  induction marks generalizing scan w with
  | nil =>
    obtain ⟨rfl, -⟩ := yields_pure.1 h
    rfl
  | cons mark marks ih =>
    obtain ⟨scan₁, w₁, hfirst, hrest⟩ := yields_foldlM_cons.1 h
    have hsound := FileScan.not_failed_of_grows (grows_of_foldlM_finish hrest) hs
    exact (ih (hstart.trans (grows_of_finish hfirst)) hrest).trans
      (marks_of_finish hstart hfirst hsound)

/-- A commit that has not failed shows in the items what their lines become, and nothing else. -/
theorem marks_of_commit (hwet : job.options.dryRun = false) (hstart : Counts.Grow {} scan.counts)
    (h : (job.commit file path scan).Yields w s w') (hs : ¬s.counts.Failed) :
    ∃ preview, scan.edits.preview = .ok preview ∧ s.marks = (scan.previewed preview).marks := by
  obtain ⟨preview, hpreview, ⟨_, _, _, -, rfl⟩ | ⟨result, v, written, -, hwritten, hfinish⟩⟩ :=
    yields_commit hwet h
  · refine absurd (Counts.Failed.grow (.inr ?_) (FileScan.grows_foldl_unwritten ..)) hs
    exact Int.lt_add_one_of_le hstart.writeFailures
  · refine ⟨preview, hpreview, (marks_of_foldlM_finish ?_ hfinish hs).trans ?_⟩
    · rw [hwritten]
      split
      · exact hstart
      · exact hstart.trans (FileScan.grows_count _
          ⟨Int.le_refl _, Int.zero_le_ofNat 1, Int.le_refl _, Int.le_refl _⟩)
    · rw [hwritten]
      split <;> rfl

theorem yields_commit_rehearsal (h : (job.rehearsal.commit file path scan).Yields w s w') :
    ∃ preview, scan.edits.preview = .ok preview ∧ s = scan.dryRun.previewed preview := by
  have hdry : job.rehearsal.options.dryRun = true := rfl
  rw [commit, yields_bind] at h
  obtain ⟨preview, w₁, hpreview, hdone⟩ := h
  rw [hdry, if_pos rfl] at hdone
  obtain ⟨rfl, -⟩ := yields_pure.1 hdone
  exact ⟨preview, (yields_ofExcept.1 hpreview).1, scan.dryRun_previewed preview⟩

end Ending

/-- A text has neither the placeholder nor a key of a task that is new in the end. -/
structure Unused (job : ScanJob) (old new : Text → Bool) (text : Text) : Prop where
  placeholder : Text.includes text job.placeholder = false
  keys : ∀ key, old key = false → new key = true → Text.includes text key = false

section File

variable {old new : Text → Bool} (hunused : job.Unused old new text)
include hunused

/-- About the keys of the text the dry run and the scan know the same. -/
theorem Unused.decide_eq (hfrom : ∀ key, old key = true → w.knows key = true)
    (hto : ∀ key, w.knows key = true → new key = true)
    (hkey : ∀ found, c.carried = some found → Text.includes text found.key = true) :
    Decision.decide c job.policy w.knows = Decision.decide c job.policy old := by
  rw [Decision.decide, Decision.decide, Candidate.key]
  cases hcarried : c.carried with
  | none => rfl
  | some found =>
    have hknown : w.knows found.key = old found.key := by
      cases hold : old found.key with
      | true => exact hfrom _ hold
      | false =>
        rw [← Bool.not_eq_true]
        intro hknows
        have habsent := hunused.keys _ hold (hto _ hknows)
        rw [hkey found hcarried] at habsent
        cases habsent
    rw [Option.map_some]
    dsimp only
    rw [hknown]

variable (hwet : job.options.dryRun = false)
  (hformat : job.settings.insertionFormat = "(\x7bkey\x7d)".toList)
include hwet hformat

/-- The dry run of the candidates of a file queues the placeholder where the scan queues new keys. -/
theorem twins_of_candidates {candidates : List Candidate}
    (hcandidates : ∀ c ∈ candidates, c.text ∈ text.contents ∧
      ∀ found, c.carried = some found → Text.includes text found.key = true)
    (hold : u.knows = old) (hfrom : ∀ key, old key = true → w.knows key = true)
    (hto : ∀ key, w'.knows key = true → new key = true) (hstart : Counts.Grow {} scan.counts)
    (hstart' : Counts.Grow {} scan'.counts) (htwins : scan.Twins job.placeholder scan')
    (h : (candidates.foldlM (job.rehearsal.scanCandidate file path) scan).Yields u s v)
    (h' : (candidates.foldlM (job.scanCandidate file path) scan').Yields w s' w')
    (hs : ¬s.counts.Failed) (hs' : ¬s'.counts.Failed) : s.Twins job.placeholder s' := by
  induction candidates generalizing scan scan' u w with
  | nil =>
    obtain ⟨rfl, -⟩ := yields_pure.1 h
    obtain ⟨rfl, -⟩ := yields_pure.1 h'
    exact htwins
  | cons c candidates ih =>
    obtain ⟨scan₁, u₁, hfirst, hrest⟩ := yields_foldlM_cons.1 h
    obtain ⟨scan₁', w₁, hfirst', hrest'⟩ := yields_foldlM_cons.1 h'
    obtain ⟨hline, hkey⟩ := hcandidates c List.mem_cons_self
    have hsound := FileScan.not_failed_of_grows (grows_of_foldlM_scanCandidate hrest) hs
    have hsound' := FileScan.not_failed_of_grows (grows_of_foldlM_scanCandidate hrest') hs'
    have hmore := keepsKeys_of_scanCandidate hfirst'
    have hlater := keepsKeys_of_candidates hrest'
    obtain ⟨_, -, hact⟩ := act_of_scanCandidate hstart hfirst hsound
    obtain ⟨w₀, hknows, hact'⟩ := act_of_scanCandidate hstart' hfirst' hsound'
    have hdecision : Decision.decide c job.policy w.knows =
        Decision.decide c job.rehearsal.policy u.knows := by
      rw [hold]
      exact hunused.decide_eq hfrom (fun key hkey => hto key (hlater key (hmore key hkey))) hkey
    rw [hdecision] at hact'
    have hnew : ∀ key, w₀.knows key = false → w₁.knows key = true →
        Text.includes text key = false := by
      intro key hbefore hafter
      refine hunused.keys key ?_ (hto key (hlater key hafter))
      rw [hknows] at hbefore
      cases hkeyold : old key with
      | false => rfl
      | true =>
        rw [hfrom key hkeyold] at hbefore
        cases hbefore
    have hgrow : Counts.Grow {} (scan'.count (.ofCandidate c)).counts :=
      hstart'.trans (scan'.grows_count (FileScan.grow_ofCandidate c))
    have htwins₁ := twins_of_act hwet hformat hunused.placeholder hline hgrow hnew
      (htwins.count _ _) hact hact' hsound'
    have hold₁ : u₁.knows = old := by
      rw [← hold]
      funext key
      have hread : u.Untouched ((job.rehearsal.scanCandidate file path scan c).run u).2 :=
        readOnly_scanCandidate rfl scan c u
      rw [hfirst] at hread
      rw [Workspace.knows, Workspace.knows, hread.store]
    exact ih (fun d hd => hcandidates d (List.mem_cons_of_mem _ hd)) hold₁
      (fun key hkey => hmore key (hfrom key hkey)) (hstart.trans (scanned_of_yields hfirst).grows)
      (hstart'.trans (scanned_of_yields hfirst').grows) htwins₁ hrest hrest'

omit hunused in
/-- The dry run of a file foretells the items of the scan of the file. -/
theorem foretells_of_visitFile (hg : grammar.Proper) (hwords : Signal.Solid job.scanner.words)
    (hdisplay : w.disk.tree.displayPath path job.repo = u.disk.tree.displayPath path job.repo)
    (htext : w.disk.tree.readText path = u.disk.tree.readText path)
    (hunused : ∀ text, u.disk.tree.readText path = .ok text → job.Unused old new text)
    (hold : u.knows = old) (hfrom : ∀ key, old key = true → w.knows key = true)
    (hto : ∀ key, w'.knows key = true → new key = true)
    (h : (job.rehearsal.visitFile path grammar).Yields u s v)
    (h' : (job.visitFile path grammar).Yields w s' w')
    (hs : ¬s.counts.Failed) (hs' : ¬s'.counts.Failed) :
    List.Forall₂ (fun item item' => item.Foretells job.placeholder (s'.keysAt item.line) item')
      (s.marks.map Mark.item) (s'.marks.map Mark.item) := by
  obtain ⟨file, hfile, ⟨_, _, hunread, -, rfl⟩ |
    ⟨text, scan₁, scan₂, u₁, u₂, hread, hscan, hkeys, hcommit⟩⟩ := yields_visitFile h <;>
  obtain ⟨file', hfile', ⟨_, _, hunread', -, rfl⟩ |
    ⟨text', scan₁', scan₂', w₁, w₂, hread', hscan', hkeys', hcommit'⟩⟩ := yields_visitFile h'
  · exact .nil
  · rw [htext, hunread] at hread'
    cases hread'
  · rw [htext, hread] at hunread'
    cases hunread'
  have hsame : file' = file := Except.ok.inj (hfile'.symm.trans (hdisplay.trans hfile))
  have hsametext : text' = text := Except.ok.inj (hread'.symm.trans (htext.trans hread))
  subst hsame hsametext
  have hunused := hunused text' hread
  -- nothing has failed in between
  have hgrow₁ := grow_start.trans (grows_of_foldlM_scanCandidate hscan')
  have hgrow₂ := hgrow₁.trans (grows_of_foldlM_confirmKey hkeys')
  have hsound₂ := FileScan.not_failed_of_grows (grows_of_commit hcommit) hs
  have hsound₁ := FileScan.not_failed_of_grows (grows_of_foldlM_confirmKey hkeys) hsound₂
  have hsound₂' := FileScan.not_failed_of_grows (grows_of_commit hcommit') hs'
  have hsound₁' := FileScan.not_failed_of_grows (grows_of_foldlM_confirmKey hkeys') hsound₂'
  have hlines : ∀ c ∈ job.scanner.scan (Text.contents text') grammar, 1 ≤ c.line ∧
      (Text.contents text')[c.line - 1]? = some c.text := fun c hc =>
    ⟨(Scanner.of_mem_scan hg hc).1, (Scanner.of_mem_scan hg hc).2.1⟩
  have hcandidates : ∀ c ∈ job.scanner.scan (Text.contents text') grammar,
      c.text ∈ text'.contents ∧
        ∀ found, c.carried = some found → Text.includes text' found.key = true := by
    intro c hc
    have hline := List.mem_of_getElem? (hlines c hc).2
    exact ⟨hline, fun found hfound => Text.includes_of_mem_contents hline
      ((Scanner.of_mem_scan hg hc).2.2 found hfound)⟩
  have hstop : ∀ c ∈ job.scanner.scan (Text.contents text') grammar, c.signal.isSome →
      c.segmentStop ≤ c.text.length := fun c hc hsignal =>
    (Scanner.marker_of_mem_scan hwords hc hsignal).1.segmentStop_le
  -- the same edits are queued, and stay so until they are committed
  have hto₁ : ∀ key, w₁.knows key = true → new key = true := fun key hkey => hto key
    (keepsKeys_of_committed (FileTree.hasNull_of_displayPath hfile') hcommit' key
      (keepsKeys_of_confirmKeys hkeys' key hkey))
  have htwins₁ := twins_of_candidates hunused hwet hformat hcandidates hold hfrom hto₁ grow_start
    grow_start ⟨.nil, fun _ => .nil⟩ hscan hscan' hsound₁ hsound₁'
  have hedits := (kept_of_foldlM_confirmKey hkeys).1
  have hedits' := (kept_of_foldlM_confirmKey hkeys').1
  have htwins : scan₂.dryRun.Twins job.placeholder scan₂' :=
    htwins₁.congr ((FileScan.asked_dryRun scan₂).trans (asked_of_confirmKeys hkeys))
      (asked_of_confirmKeys hkeys') hedits hedits'
  have hwords' : Signal.Solid job.rehearsal.scanner.words := hwords
  have howned := (edits_of_all (inOrder_scan hg hwords' text'.contents) rfl).2 _ _ hscan
  have howned' := (edits_of_all (inOrder_scan hg hwords text'.contents) rfl).2 _ _ hscan'
  have howned : scan₂.dryRun.edits.OfMarkers job.rehearsal.Owns _ := hedits ▸ howned
  rw [← hedits'] at howned'
  -- so the items come to show the same, but for the new keys
  obtain ⟨preview, hpreview, rfl⟩ := yields_commit_rehearsal hcommit
  obtain ⟨preview', hpreview', hmarks'⟩ := marks_of_commit hwet hgrow₂ hcommit' hs'
  obtain ⟨hafter, hafter'⟩ := htwins.lineAfter
  have hitems := FileScan.items_previewed howned hafter hpreview
  have hitems' := FileScan.items_previewed howned' hafter' hpreview'
  rw [← hmarks'] at hitems'
  have hkeysAt : ∀ line, s'.keysAt line = scan₂'.keysAt line := by
    intro line
    rw [FileScan.keysAt, hitems', Mark.keysAt_shown, FileScan.keysAt]
  rw [hitems, hitems', List.forall₂_map_left_iff, List.forall₂_map_right_iff]
  refine htwins.marks.imp fun mark mark' htwin => ?_
  have hline : (mark.shown scan₂.dryRun.edits).line = mark.item.line := by
    rw [Mark.shown]
    split <;> rfl
  rw [hline, hkeysAt]
  exact htwin.foretells (howned.filled howned' hlines hstop (htwins.splices _))

end File

end ScanJob

end TodoTracker
