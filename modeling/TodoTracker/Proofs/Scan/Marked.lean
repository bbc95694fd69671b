import TodoTracker.Proofs.Scan.Creation
import TodoTracker.Proofs.Scan.Through
import TodoTracker.Proofs.Task.Created

/-!
# The marks of a file that is about to be written

Going through the candidates of a file numbers its marks. The mark of a new task has the line that
its key is queued for, and no other mark has its key; a key that is to be confirmed or dropped
stands in the text of the file. So the task of a key that the text does not have stays new until
the edits are committed.
-/

set_option autoImplicit false

namespace TodoTracker

open Work

namespace Text

theorem slice_infix (t : Text) (start stop : Nat) : slice t start stop <:+: t :=
  (List.drop_suffix _ _).isInfix.trans (List.take_prefix _ _).isInfix

theorem includes_of_infix {needle t : Text} (h : needle <:+: t) : includes t needle = true := by
  obtain ⟨a, b, rfl⟩ := h
  rw [includes, Option.isSome_iff_ne_none]
  intro hnone
  rw [List.append_assoc] at hnone
  by_cases hlt : a.length < (a ++ (needle ++ b)).length
  · refine not_prefix_of_indexOf?_none hnone a.length hlt ?_
    rw [List.drop_left]
    exact List.prefix_append _ _
  · have hempty : needle = [] ∧ b = [] := by simpa [Nat.pos_iff_ne_zero] using hlt
    rw [hempty.1, hempty.2, List.append_nil, List.append_nil] at hnone
    cases a with
    | nil => cases hnone
    | cons c a => simp [indexOf?] at hnone

/-- What stands in a line of a text stands in the text. -/
theorem includes_of_mem_contents {line key text : Text} (hline : line ∈ contents text)
    (hkey : key <:+: line) : includes text key = true := by
  obtain ⟨l, hl, rfl⟩ := List.mem_map.1 hline
  refine includes_of_infix (hkey.trans ?_)
  obtain ⟨before, after, hsplit⟩ := List.append_of_mem hl
  rw [← Line.join_split text, hsplit, Line.join, List.flatMap_append, List.flatMap_cons, Line.text]
  exact ⟨before.flatMap Line.text, l.ending.text ++ after.flatMap Line.text, by simp⟩

end Text

namespace CarriedKey

variable {patterns : List Pattern} {line segment : Text} {start stop : Nat} {found : CarriedKey}

theorem ofMatch_infix (pattern : Pattern) (line : Text) (m : Pattern.Match) :
    (FoundKey.ofMatch pattern line m).key <:+: line :=
  Text.slice_infix _ _ _

/-- A key that is found in a segment of a line stands in the line. -/
theorem infix_of_inSegment? (h : inSegment? patterns line start stop = some found) :
    found.key <:+: line := by
  rw [inSegment?] at h
  split at h
  · rename_i ticket hticket
    cases h
    obtain ⟨x, b, a, y, hsegment, -⟩ := TicketAttribute.of_findFrom hticket
    refine List.IsInfix.trans ?_ (Text.slice_infix line start stop)
    rw [hsegment]
    exact ⟨x ++ [b], a :: y, by simp [ofTicket]⟩
  · split at h
    · rename_i hparen
      cases h
      obtain ⟨paren, -, hfound⟩ := Option.bind_eq_some_iff.1 hparen
      obtain ⟨pattern, -, hmatch⟩ := List.exists_of_findSome?_eq_some hfound
      obtain ⟨m, -, rfl⟩ := Option.map_eq_some_iff.1 hmatch
      exact ofMatch_infix pattern line m
    · obtain ⟨pattern, -, hmatch⟩ := List.exists_of_findSome?_eq_some h
      split at hmatch
      · split at hmatch
        · cases hmatch
          exact ofMatch_infix pattern line _
        · cases hmatch
      · cases hmatch

end CarriedKey

namespace Scanner

variable {scanner : Scanner} {grammar : Grammar} {lines : List Text} {c : Candidate}

/-- A candidate of a line, with its key if it has one. -/
theorem of_mem_scanSpan {number : Nat} {line : Text} {span : Span}
    (hc : c ∈ scanner.scanSpan number line span) :
    c.line = number ∧ c.text = line ∧ ∀ found, c.carried = some found → found.key <:+: line := by
  rw [scanSpan, ofSignals_eq] at hc
  rcases List.mem_append.1 hc with hc | hc
  · obtain ⟨signal, -, last, rfl⟩ := exists_of_mem_ofSignalsTo hc
    exact ⟨rfl, rfl, fun found hfound => CarriedKey.infix_of_inSegment? hfound⟩
  · split at hc
    · obtain ⟨key, hkey, rfl⟩ := List.mem_map.1 hc
      refine ⟨rfl, rfl, ?_⟩
      rintro found ⟨⟩
      rw [FoundKey.findAll, List.mem_mergeSort] at hkey
      rcases FoundKey.mem_of_mem_foldl_insert hkey with hkey | hkey
      · obtain ⟨pattern, -, hkey⟩ := List.mem_flatMap.1 hkey
        obtain ⟨m, -, rfl⟩ := List.mem_map.1 hkey
        exact CarriedKey.ofMatch_infix pattern line m
      · cases hkey
    · cases hc

/-- A candidate has the text of its line, and its key stands there. -/
theorem of_mem_scan (hg : grammar.Proper) (hc : c ∈ scanner.scan lines grammar) :
    1 ≤ c.line ∧ lines[c.line - 1]? = some c.text ∧
      ∀ found, c.carried = some found → found.key <:+: c.text := by
  obtain ⟨i, line, pending, hline, -, span, -, hc⟩ := exists_span_of_mem_scan hg hc
  obtain ⟨hnumber, htext, hkey⟩ := of_mem_scanSpan hc
  rw [hnumber, htext, Nat.add_sub_cancel_left]
  exact ⟨Nat.le_add_right 1 i, hline, hkey⟩

end Scanner

theorem KeyToken.infix_of_occursIn {line key : Text} (h : KeyToken.occursIn line key = true) :
    key <:+: line := by
  obtain ⟨column, hcolumn⟩ := (occursIn_iff line key).1 h
  rw [isTokenAt, startsWith, Bool.and_eq_true, Bool.and_eq_true, List.isPrefixOf_iff_prefix]
    at hcolumn
  exact hcolumn.1.2.isInfix.trans (List.drop_suffix _ _).isInfix

theorem Document.NewAt.openAt {doc : Document} {key : Text} (h : doc.NewAt key) :
    doc.OpenAt key := by
  obtain ⟨fields, htask, hopen⟩ := h
  intro task htask'
  rw [htask] at htask'
  cases htask'
  exact ⟨fields, [], rfl, hopen⟩

/-- The key is that of a task whose anchor waits for a line to be written. -/
def FileScan.Waits (scan : FileScan) (key : Text) : Prop :=
  .anchor key ∈ scan.followUps ∨ .drop key ∈ scan.followUps

namespace ScanJob

variable {job : ScanJob} {text file : Text} {path : Path} {grammar : Grammar} {c : Candidate}
  {scan scan' : FileScan} {item : ScanItem} {followUp : FollowUp} {w w' : Workspace}

/-- An item with the content of its line, for which the written form of a key is queued unless the
line has the key. -/
structure Queued (job : ScanJob) (text : Text) (edits : EditQueue) (item : ScanItem) (key : Text) :
    Prop where
  line_pos : 1 ≤ item.line
  before : (Text.contents text)[item.line - 1]? = some item.lineBefore
  splice : KeyToken.occursIn item.lineBefore key = false →
    ∃ s ∈ edits.splicesAt item.line, s.text = Splice.keyText key job.settings.insertionFormat

/-- What is known of the marks of a file with the text `text` while they are gathered. -/
structure Marked (job : ScanJob) (text : Text) (scan : FileScan) : Prop where
  numbered : scan.marks.map Mark.number = List.range scan.marks.length
  created : ∀ mark ∈ scan.marks, mark.item.status = .created →
    ∃ key, mark.followUp = .anchor key ∧ mark.item.taskKey = some key
  queued : ∀ mark ∈ scan.marks, ∀ key, mark.followUp = .anchor key →
    job.Queued text scan.edits mark.item key
  unique : ∀ mark ∈ scan.marks, ∀ other ∈ scan.marks, ∀ key, mark.followUp = .anchor key →
    other.followUp = .anchor key → mark.number = other.number
  named : ∀ key, .confirm key ∈ scan.followUps ∨ .drop key ∈ scan.followUps →
    Text.includes text key = true

theorem Marked.count (h : job.Marked text scan) (counts : Counts) :
    job.Marked text (scan.count counts) :=
  ⟨h.numbered, h.created, h.queued, h.unique, h.named⟩

theorem Marked.addMark (h : job.Marked text scan)
    (hmarks : scan'.marks = scan.marks ++ [⟨scan.marks.length, item, followUp⟩])
    (hedits : ∀ (number : Int), ∀ s ∈ scan.edits.splicesAt number, s ∈ scan'.edits.splicesAt number)
    (hcreated : item.status = .created → ∃ key, followUp = .anchor key ∧ item.taskKey = some key)
    (hqueued : ∀ key, followUp = .anchor key → job.Queued text scan'.edits item key)
    (hfresh : ∀ key, followUp = .anchor key → .anchor key ∉ scan.followUps)
    (hnamed : ∀ key, followUp = .confirm key ∨ followUp = .drop key →
      Text.includes text key = true) : job.Marked text scan' := by
  have hmem : ∀ mark ∈ scan'.marks,
      mark ∈ scan.marks ∨ mark = ⟨scan.marks.length, item, followUp⟩ := by
    intro mark hmark
    rw [hmarks, List.mem_append, List.mem_singleton] at hmark
    exact hmark
  constructor
  · rw [hmarks, List.map_append, h.numbered, List.length_append]
    exact List.range_succ.symm
  · intro mark hmark hstatus
    rcases hmem mark hmark with hold | rfl
    · exact h.created mark hold hstatus
    · exact hcreated hstatus
  · intro mark hmark key hkey
    rcases hmem mark hmark with hold | rfl
    · have hqueued := h.queued mark hold key hkey
      refine ⟨hqueued.line_pos, hqueued.before, fun habsent => ?_⟩
      obtain ⟨s, hs, htext⟩ := hqueued.splice habsent
      exact ⟨s, hedits _ s hs, htext⟩
    · exact hqueued key hkey
  · intro mark hmark other hother key hkey hkey'
    rcases hmem mark hmark with hold | rfl
    · rcases hmem other hother with hold' | rfl
      · exact h.unique mark hold other hold' key hkey hkey'
      · exact absurd (List.mem_map.2 ⟨mark, hold, hkey⟩) (hfresh key hkey')
    · rcases hmem other hother with hold' | rfl
      · exact absurd (List.mem_map.2 ⟨other, hold', hkey'⟩) (hfresh key hkey)
      · rfl
  · intro key hkey
    rw [FileScan.followUps, hmarks, List.map_append, List.mem_append, List.mem_append,
      List.map_singleton, List.mem_singleton, List.mem_singleton] at hkey
    rcases hkey with (hold | hnew) | (hold | hnew)
    · exact h.named key (.inl hold)
    · exact hnamed key (.inl hnew.symm)
    · exact h.named key (.inr hold)
    · exact hnamed key (.inr hnew.symm)

/-- Of a mark that does not wait only the key that it confirms must stand in the text. -/
theorem Marked.addPassive (h : job.Marked text scan)
    (hmarks : scan'.marks = scan.marks ++ [⟨scan.marks.length, item, followUp⟩])
    (hedits : ∀ (number : Int), ∀ s ∈ scan.edits.splicesAt number, s ∈ scan'.edits.splicesAt number)
    (hstatus : item.status ≠ .created) (hwaits : followUp.waits = false)
    (hnamed : ∀ key, followUp.confirms? = some key → Text.includes text key = true) :
    job.Marked text scan' := by
  refine h.addMark hmarks hedits (fun hs => absurd hs hstatus) ?_ ?_ ?_
  · rintro key rfl
    cases hwaits
  · rintro key rfl
    cases hwaits
  · rintro key (rfl | rfl)
    · exact hnamed key rfl
    · cases hwaits

/-- What the store has for the keys that wait. Once there is a new task its documents are sound. -/
structure Ready (scan : FileScan) (w : Workspace) : Prop where
  new : ∀ key, .anchor key ∈ scan.followUps → w.store.document.NewAt key
  opened : ∀ key, .drop key ∈ scan.followUps → w.store.document.OpenAt key
  sound : ∀ key, .anchor key ∈ scan.followUps → ∃ changes, w.Sound scan.Waits changes

theorem Ready.openAt (h : Ready scan w) {key : Text} (hkey : scan.Waits key) :
    w.store.document.OpenAt key :=
  hkey.elim (fun hanchor => (h.new key hanchor).openAt) (h.opened key)

theorem openAt_of_unknown {key : Text} (h : w.knows key = false) :
    w.store.document.OpenAt key := by
  intro task htask
  have hknown := Workspace.knows_eq_true_iff.2 (List.mem_map_of_mem (f := Prod.fst)
    (Document.mem_of_task? htask))
  rw [h] at hknown
  cases hknown

/-- Neither the counts nor the calls matter. -/
theorem Ready.count (h : Ready scan w) (counts : Counts) (calls : Nat) :
    Ready (scan.count counts) { w with calls } := by
  refine ⟨h.new, h.opened, fun key hkey => ?_⟩
  obtain ⟨changes, hw⟩ := h.sound key hkey
  exact ⟨changes, hw.document, hw.path, hw.changes⟩

/-- A mark that does not wait makes no difference. -/
theorem Ready.of_passive (h : Ready scan w)
    (hfollow : scan'.followUps = scan.followUps ++ [followUp]) (hwaits : followUp.waits = false)
    (htasks : ∀ key, w'.store.document.tasks.task? key = w.store.document.tasks.task? key)
    (hsound : ∀ K changes, w.Sound K changes → ∃ changes', w'.Sound K changes') :
    Ready scan' w' := by
  have hanchor : ∀ key, .anchor key ∈ scan'.followUps → .anchor key ∈ scan.followUps := by
    intro key hkey
    rw [hfollow, List.mem_append, List.mem_singleton] at hkey
    refine hkey.resolve_right ?_
    rintro rfl
    cases hwaits
  have hdrop : ∀ key, .drop key ∈ scan'.followUps → .drop key ∈ scan.followUps := by
    intro key hkey
    rw [hfollow, List.mem_append, List.mem_singleton] at hkey
    refine hkey.resolve_right ?_
    rintro rfl
    cases hwaits
  refine ⟨fun key hkey => (h.new key (hanchor key hkey)).of_task (htasks key),
    fun key hkey => (h.opened key (hdrop key hkey)).of_task (htasks key), fun key hkey => ?_⟩
  obtain ⟨changes, hw⟩ := h.sound key (hanchor key hkey)
  obtain ⟨changes', hw'⟩ := hsound _ _ hw
  exact ⟨changes', hw'.document.mono fun other hother => hother.imp (hanchor other) (hdrop other),
    hw'.path, hw'.changes⟩

theorem mem_splicesAt_of_add {queue queue' : EditQueue} {edit : LineEdit}
    (h : queue.add file edit = .ok queue') {number : Int} {s : Splice}
    (hs : s ∈ queue.splicesAt number) : s ∈ queue'.splicesAt number := by
  rw [EditQueue.splicesAt_add h]
  exact List.mem_append_left _ hs

/-- The new task waits for its anchor like those before it. -/
theorem Ready.of_created {key : Text} (h : Ready scan w)
    (hcreated : Tasks.Created w key w')
    (hfollow : scan'.followUps = scan.followUps ++ [.anchor key]) : Ready scan' w' := by
  have hkeys : ∀ f : FollowUp, f ∈ scan'.followUps → f ∈ scan.followUps ∨ f = .anchor key := by
    intro f hf
    rwa [hfollow, List.mem_append, List.mem_singleton] at hf
  have hfresh : w.store.document.OpenAt key := by
    intro task htask
    rw [hcreated.fresh] at htask
    cases htask
  constructor
  · intro other hother
    rcases hkeys _ hother with hold | heq
    · have hnew := h.new other hold
      refine hnew.of_task (hcreated.others other ?_)
      rintro rfl
      obtain ⟨fields, htask, -⟩ := hnew
      rw [hcreated.fresh] at htask
      cases htask
    · cases heq
      exact hcreated.new
  · intro other hother
    by_cases hkey : other = key
    · exact hkey ▸ hcreated.new.openAt
    · exact (h.opened other ((hkeys _ hother).resolve_right fun heq => by cases heq)).of_task
        (hcreated.others other hkey)
  · intro other _
    refine ⟨_, hcreated.sound _ fun k hk => ?_⟩
    rcases hk with hk | hk
    · rcases hkeys _ hk with hold | heq
      · exact h.openAt (.inl hold)
      · cases heq
        exact hfresh
    · exact h.opened k ((hkeys _ hk).resolve_right fun heq => by cases heq)

/-- A stale key waits to be dropped. -/
theorem Ready.of_pruned {key : Text} {calls : Nat} (h : Ready scan w)
    (hunknown : w.knows key = false)
    (hfollow : scan'.followUps = scan.followUps ++ [.drop key]) :
    Ready scan' { w with calls } := by
  have hkeys : ∀ f : FollowUp, f ∈ scan'.followUps → f ∈ scan.followUps ∨ f = .drop key := by
    intro f hf
    rwa [hfollow, List.mem_append, List.mem_singleton] at hf
  have hopen : ∀ other, .drop other ∈ scan'.followUps → w.store.document.OpenAt other := by
    intro other hother
    rcases hkeys _ hother with hold | heq
    · exact h.opened other hold
    · cases heq
      exact openAt_of_unknown hunknown
  have hanchor : ∀ other, .anchor other ∈ scan'.followUps → .anchor other ∈ scan.followUps :=
    fun other hother => (hkeys _ hother).resolve_right fun heq => by cases heq
  refine ⟨fun other hother => h.new other (hanchor other hother), hopen, fun other hother => ?_⟩
  obtain ⟨changes, hw⟩ := h.sound other (hanchor other hother)
  refine ⟨changes, ⟨hw.document.header, fun k hk => ?_⟩, hw.path, hw.changes⟩
  rcases hk with hk | hk
  · exact hw.document.tasks k (.inl (hanchor k hk))
  · exact hopen k hk

/-- A new task waits for its key to be written in the line of its marker, if there is one. -/
theorem marked_of_openTask {item : ScanItem} (hdry : job.options.dryRun = false)
    (hmarked : job.Marked text scan) (hready : Ready scan w) (hpos : 1 ≤ item.line)
    (hitem : item.line = c.line) (htext : item.lineBefore = c.text)
    (hline : (Text.contents text)[item.line - 1]? = some item.lineBefore)
    (h : (job.openTask file path scan c item).Yields w scan' w') :
    job.Marked text scan' ∧ Ready scan' w' := by
  rcases openTask_cases hdry h with
    ⟨e, failed, hattempt, hfailed, rfl⟩ | ⟨key, queue, hcreate, hadd, rfl⟩
  · refine ⟨hmarked.addPassive rfl (fun _ _ hs => hs) (hfailed.symm ▸ Status.noConfusion) rfl
        (fun _ hconfirms => by cases hconfirms),
      hready.of_passive (FileScan.followUps_addMark ..) rfl
        (fun key => by rw [Tasks.tasks_of_create_fails (fails_of_attempt hattempt)])
        fun K changes hw => ?_⟩
    have hrun := run_attempt (Tasks.create
      (Seed.ofAttributes (c.taskTitle file) c.attributes).fields) w
    rw [hattempt] at hrun
    have hrun : w' = _ := hrun
    rw [hrun]
    exact ⟨changes, (Tasks.guarded_create _ _ hw).leaves⟩
  · have hcreated := Tasks.created_of_create
      (Seed.referencesName_not_mem_fields (c.taskTitle file) c.attributes) hcreate
    refine ⟨hmarked.addMark rfl (fun _ _ hs => mem_splicesAt_of_add hadd hs)
      (fun _ => ⟨key, rfl, rfl⟩) ?_ ?_ ?_,
      hready.of_created hcreated (FileScan.followUps_addMark ..)⟩
    · rintro _ ⟨⟩
      refine ⟨hpos, hline, fun habsent => ?_⟩
      refine ⟨⟨c.signalStop, c.signalStop, Splice.keyText key job.settings.insertionFormat⟩, ?_,
        rfl⟩
      have habsent : KeyToken.occursIn c.text key = false := htext ▸ habsent
      have hsplices := EditQueue.splicesAt_add hadd c.line
      rw [if_pos rfl, creationSplices, Splice.keyInsertion?, habsent] at hsplices
      have hline : item.line = c.line := hitem
      dsimp only
      rw [hline]
      exact hsplices ▸ List.mem_append_right _ (List.mem_append_left _ (List.mem_singleton_self _))
    · rintro _ ⟨⟩ hold
      obtain ⟨fields, htask, -⟩ := hready.new key hold
      rw [hcreated.fresh] at htask
      cases htask
    · rintro _ (⟨⟨⟩⟩ | ⟨⟨⟩⟩)

/-- What going through one more candidate gathers. -/
theorem marked_of_scanCandidate (hdry : job.options.dryRun = false) (hg : grammar.Proper)
    (hc : c ∈ job.scanner.scan text.contents grammar) (hmarked : job.Marked text scan)
    (hready : Ready scan w) (h : (job.scanCandidate file path scan c).Yields w scan' w') :
    job.Marked text scan' ∧ Ready scan' w' := by
  obtain ⟨hpos, hline, hkey⟩ := Scanner.of_mem_scan hg hc
  have hnamed : ∀ found, c.carried = some found → Text.includes text found.key = true :=
    fun found hfound => Text.includes_of_mem_contents (List.mem_of_getElem? hline)
      (hkey found hfound)
  cases scanned_of_yields h with
  | refused item _ hstatus hcalls =>
    refine ⟨hmarked.addPassive rfl (fun _ _ hs => hs) hstatus rfl
        (fun _ hconfirms => by cases hconfirms),
      hready.of_passive (FileScan.followUps_addMark ..) rfl (fun key => by rw [hcalls]) ?_⟩
    intro K changes hw
    rw [hcalls]
    exact ⟨changes, hw.document, hw.path, hw.changes⟩
  | @noted item followUp calls _ _ hwaits hfollow hstatus =>
    refine ⟨hmarked.addPassive rfl (fun _ _ hs => hs) hstatus hwaits fun key hconfirms => ?_,
      hready.of_passive (FileScan.followUps_addMark ..) hwaits (fun _ => rfl)
        fun K changes hw => ⟨changes, hw.document, hw.path, hw.changes⟩⟩
    rw [hfollow, sightedKey?] at hconfirms
    split at hconfirms
    · have hcarries := (Option.filter_eq_some_iff.1 hconfirms).1
      rw [Candidate.key, Option.map_eq_some_iff] at hcarries
      obtain ⟨found, hfound, rfl⟩ := hcarries
      exact hnamed found hfound
    · cases hconfirms
  | @pruned item found edits calls haction hcarried _ hadd hstatus =>
    refine ⟨hmarked.addMark rfl (fun _ _ hs => mem_splicesAt_of_add hadd hs)
      (fun hs => absurd hs hstatus) (fun _ hanchor => by cases hanchor)
      (fun _ hanchor => by cases hanchor) ?_,
      hready.of_pruned (unknown_of_prune haction hcarried) (FileScan.followUps_addMark ..)⟩
    rintro key (⟨⟨⟩⟩ | ⟨⟨⟩⟩)
    exact hnamed found hcarried
  | opened haction hopen hknows hcalls hitem htext =>
    rw [hcalls] at hopen
    refine marked_of_openTask hdry (hmarked.count _) (hready.count _ _) (hitem ▸ hpos) hitem htext
      ?_ hopen
    rw [hitem, htext]
    exact hline

/-- What going through all candidates gathers. -/
theorem marked_of_candidates {start : FileScan} (hdry : job.options.dryRun = false)
    (hg : grammar.Proper) (hstart : start.marks = [])
    (h : ((job.scanner.scan text.contents grammar).foldlM (job.scanCandidate file path) start).Yields
      w scan w') : job.Marked text scan ∧ Ready scan w' := by
  refine foldlM_keeps (P := fun scan v => job.Marked text scan ∧ Ready scan v)
    (fun c hc scan v scan' v' hv hstep => marked_of_scanCandidate hdry hg hc hv.1 hv.2 hstep) ?_ h
  have hnone : start.followUps = [] := by rw [FileScan.followUps, hstart, List.map_nil]
  refine ⟨⟨by rw [hstart]; rfl, ?_, ?_, ?_, ?_⟩, ?_, ?_, ?_⟩
  all_goals simp [hstart, hnone]

section Sighted

/-- Confirming keys changes the marks of sightings only, and none of them into one of a new task. -/
theorem Marked.map {f : Mark → Mark} (h : job.Marked text scan)
    (hmarks : scan'.marks = scan.marks.map f) (hedits : scan'.edits = scan.edits)
    (hf : ∀ mark, f mark = mark ∨ (f mark).number = mark.number ∧
      (f mark).followUp = mark.followUp ∧ (f mark).item.status ≠ .created ∧
      mark.followUp.confirms?.isSome = true) : job.Marked text scan' := by
  have hnumber : ∀ mark, (f mark).number = mark.number := fun mark =>
    (hf mark).elim (fun heq => by rw [heq]) fun hchanged => hchanged.1
  have hfollow : ∀ mark, (f mark).followUp = mark.followUp := fun mark =>
    (hf mark).elim (fun heq => by rw [heq]) fun hchanged => hchanged.2.1
  have hanchor : ∀ mark key, mark.followUp = .anchor key → f mark = mark := by
    intro mark key hkey
    refine (hf mark).resolve_right ?_
    rintro ⟨-, -, -, hconfirms⟩
    rw [hkey] at hconfirms
    cases hconfirms
  have hfollowUps : scan'.followUps = scan.followUps := by
    rw [FileScan.followUps, hmarks, List.map_map]
    exact List.map_congr_left fun mark _ => hfollow mark
  constructor
  · rw [hmarks, List.map_map, List.length_map, ← h.numbered]
    exact List.map_congr_left fun mark _ => hnumber mark
  · rw [hmarks]
    rintro _ hmark hstatus
    obtain ⟨mark, hmem, rfl⟩ := List.mem_map.1 hmark
    have heq : f mark = mark := (hf mark).resolve_right fun hchanged => hchanged.2.2.1 hstatus
    rw [heq] at hstatus ⊢
    exact h.created mark hmem hstatus
  · rw [hmarks, hedits]
    rintro _ hmark key hkey
    obtain ⟨mark, hmem, rfl⟩ := List.mem_map.1 hmark
    rw [hfollow] at hkey
    rw [hanchor mark key hkey]
    exact h.queued mark hmem key hkey
  · rw [hmarks]
    rintro _ hmark _ hother key hkey hkey'
    obtain ⟨mark, hmem, rfl⟩ := List.mem_map.1 hmark
    obtain ⟨other, hmem', rfl⟩ := List.mem_map.1 hother
    rw [hfollow] at hkey hkey'
    rw [hnumber, hnumber]
    exact h.unique mark hmem other hmem' key hkey hkey'
  · rw [hfollowUps]
    exact h.named

theorem Marked.confirmKey {key : Text} (h : job.Marked text scan)
    (hyields : (job.confirmKey file scan key).Yields w scan' w') : job.Marked text scan' := by
  have hconfirms : ∀ mark : Mark, mark.confirms key = true →
      mark.followUp.confirms?.isSome = true := by
    intro mark hmark
    rw [beq_iff_eq.1 hmark]
    rfl
  rcases yields_confirmKey hyields with
    ⟨-, rfl, -⟩ | ⟨best, -, ⟨message, rfl⟩ | ⟨result, -, rfl⟩⟩
  · exact h
  · refine h.map rfl rfl fun mark => ?_
    split
    · rename_i hmark
      exact .inr ⟨rfl, rfl, (fun hstatus => by cases hstatus), hconfirms mark hmark⟩
    · exact .inl rfl
  · refine h.map rfl rfl fun mark => ?_
    split
    · exact .inl rfl
    · rename_i hmark
      have hmark := hconfirms mark (by simpa using hmark)
      right
      split
      · refine ⟨rfl, rfl, fun hstatus => ?_, hmark⟩
        rw [Mark.anchored] at hstatus
        dsimp only at hstatus
        split at hstatus
        · cases hstatus
        · split at hstatus <;> cases hstatus
      · exact ⟨rfl, rfl, (fun hstatus => by cases hstatus), hmark⟩

/-- Calls about the anchors of other keys leave the task of a key. -/
theorem anchorsGuarded_kept (job : ScanJob) (file key : Text) (task : Option Json) :
    job.AnchorsGuarded file (· ≠ key) (fun v => v.store.document.tasks.task? key = task)
      fun _ => True where
  confirm other hne line v hv := (Reconciler.called_confirm other ⟨file, line⟩ v).imp
    (fun _ hu => (hu.others key hne.symm).trans hv) fun _ h => h
  remove other hne line v hv := (Tasks.called_remove other ⟨file, line⟩ v).imp
    (fun _ hu => (hu.others key hne.symm).trans hv) fun _ _ => trivial

/-- Calls about anchors keep documents sound, also those about keys that are not known to be. -/
theorem anchorsGuarded_any (job : ScanJob) (file : Text) (K : Text → Prop)
    (changes : List Change) :
    job.AnchorsGuarded file (fun _ => True) (Workspace.Sound K changes) fun _ => True where
  confirm key _ line _ hw := (job.reconciler.guarded_confirm key ⟨file, line⟩ hw).mono
    fun _ _ => trivial
  remove key _ line _ hw := (Tasks.guarded_remove key ⟨file, line⟩ hw).mono fun _ _ => trivial

/-- The scan of a file with the text `text` up to the commit of its edits. -/
def gather (job : ScanJob) (file : Text) (path : Path) (text : Text) (grammar : Grammar) :
    Work FileScan := do
  let scan ← (job.scanner.scan text.contents grammar).foldlM (job.scanCandidate file path)
    (({} : FileScan).count { filesScanned := 1 })
  scan.sightedKeys.foldlM (job.confirmKey file) scan

/-- A file that can be read is scanned, and then its edits are committed. -/
theorem visitFile_eq_gather (job : ScanJob) (path : Path) (grammar : Grammar) :
    job.visitFile path grammar = (do
      let file ← Work.look (·.displayPath path job.repo)
      match ← Work.attemptFile (Work.look (·.readText path)) with
      | .error message =>
        let warning := "Skipped ".toList ++ file ++ ": ".toList ++ message
        return (({} : FileScan).warn warning).count { filesSkipped := 1 }
      | .ok text => do
        let scan ← job.gather file path text grammar
        job.commit file path scan) := by
  rw [visitFile]
  congr 1
  funext file
  congr 1
  funext answer
  cases answer with
  | error message => rfl
  | ok text => exact (bind_assoc _ _ _).symm

theorem Marked.includes_of_mem_sightedKeys (h : job.Marked text scan) {key : Text}
    (hkey : key ∈ scan.sightedKeys) : Text.includes text key = true := by
  rw [FileScan.sightedKeys, List.mem_eraseDups] at hkey
  obtain ⟨mark, hmark, hconfirms⟩ := List.mem_filterMap.1 hkey
  refine h.named key (.inl (List.mem_map.2 ⟨mark, hmark, ?_⟩))
  cases hfollow : mark.followUp with
  | confirm other =>
    rw [hfollow] at hconfirms
    cases hconfirms
    rfl
  | _ =>
    rw [hfollow] at hconfirms
    cases hconfirms

/-- What is known of a file when its edits are committed: the task of a key that its text does not
have is still new. -/
theorem of_gather (hdry : job.options.dryRun = false) (hg : grammar.Proper)
    (hwords : Signal.Solid job.scanner.words)
    (h : (job.gather file path text grammar).Yields w scan w') :
    job.Marked text scan ∧
      scan.edits.OfMarkers job.Owns (job.scanner.scan text.contents grammar) ∧
      ∀ key, .anchor key ∈ scan.followUps → Text.includes text key = false →
        w'.store.document.NewAt key ∧ ∃ changes, w'.Sound scan.Waits changes := by
  obtain ⟨scan₁, w₁, hscan, hkeys⟩ := yields_bind.1 h
  obtain ⟨hmarked, hready⟩ := marked_of_candidates hdry hg rfl hscan
  have hqueued := (edits_of_all (inOrder_scan hg hwords (Text.contents text)) rfl).2 _ _ hscan
  obtain ⟨hedits, hfollow, -, -⟩ := kept_of_foldlM_confirmKey hkeys
  refine ⟨foldlM_keeps (P := fun scan _ => job.Marked text scan)
    (fun _ _ _ _ _ _ hv hstep => hv.confirmKey hstep) hmarked hkeys, hedits ▸ hqueued, ?_⟩
  intro key hkey habsent
  rw [hfollow] at hkey
  have hne : ∀ other ∈ scan₁.sightedKeys, other ≠ key := by
    rintro other hother rfl
    rw [hmarked.includes_of_mem_sightedKeys hother] at habsent
    cases habsent
  have hkept : GuardedAt
      (fun v => v.store.document.tasks.task? key = w₁.store.document.tasks.task? key) (fun _ => True)
      (scan₁.sightedKeys.foldlM (job.confirmKey file) scan₁) w₁ :=
    .foldlM (fun other hother scan v hv => (job.anchorsGuarded_kept file key _).confirmKey
      (fun _ _ _ => trivial) (hne other hother) hv) scan₁ rfl
  obtain ⟨changes, hsound⟩ := hready.sound key hkey
  have hstill : GuardedAt (Workspace.Sound scan₁.Waits changes) (fun _ => True)
      (scan₁.sightedKeys.foldlM (job.confirmKey file) scan₁) w₁ :=
    .foldlM (fun other _ scan v hv => (job.anchorsGuarded_any file _ changes).confirmKey
      (fun _ _ _ => trivial) trivial hv) scan₁ hsound
  have hwaits : scan.Waits = scan₁.Waits := by
    funext other
    rw [FileScan.Waits, FileScan.Waits, hfollow]
  exact ⟨(hready.new key hkey).of_task (hkept.leads hkeys), changes, hwaits ▸ hstill.leads hkeys⟩

end Sighted

end ScanJob

end TodoTracker
