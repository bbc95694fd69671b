import TodoTracker.Proofs.Edit.Committed
import TodoTracker.Proofs.Scan.Marked

/-!
# How new tasks end

The marks that wait for the edits of a file are finished one after the other once the edits are
committed. Finishing one of them leaves the others and their tasks alone. So a new task is anchored
at the line of its marker when that line was written, and its key stands there then; else the item
says what has failed, and the task has no anchor.
-/

set_option autoImplicit false

namespace TodoTracker

open Work

namespace FileScan

variable {scan : FileScan} {numbers : List Nat} {mark other : Mark}

/-- The scan has a mark, and its marks have these numbers. -/
structure Shows (numbers : List Nat) (mark : Mark) (scan : FileScan) : Prop where
  mem : mark ∈ scan.marks
  numbers : scan.marks.map Mark.number = numbers

theorem Shows.congr {scan' : FileScan} (h : scan.Shows numbers mark)
    (hmarks : scan'.marks = scan.marks) : scan'.Shows numbers mark :=
  ⟨hmarks ▸ h.mem, hmarks ▸ h.numbers⟩

theorem numbers_replaceMark (scan : FileScan) (mark : Mark) :
    (scan.replaceMark mark).marks.map Mark.number = scan.marks.map Mark.number := by
  rw [replaceMark, List.map_map]
  refine List.map_congr_left fun m _ => ?_
  dsimp only [Function.comp_apply]
  split
  · rename_i hsame
    exact hsame.symm
  · rfl

/-- Another item for a mark leaves the other marks as they are. -/
theorem Shows.setItem_of_ne (h : scan.Shows numbers mark) (hne : mark.number ≠ other.number)
    (item : ScanItem) : (scan.replaceMark { other with item }).Shows numbers mark :=
  ⟨List.mem_map.2 ⟨mark, h.mem, if_neg hne⟩, (scan.numbers_replaceMark _).trans h.numbers⟩

theorem Shows.setItem (h : scan.Shows numbers mark) (item : ScanItem) :
    (scan.replaceMark { mark with item }).Shows numbers { mark with item } :=
  ⟨List.mem_map.2 ⟨mark, h.mem, if_pos rfl⟩, (scan.numbers_replaceMark _).trans h.numbers⟩

theorem Shows.unwritten_of_ne (h : scan.Shows numbers mark) (hne : mark.number ≠ other.number)
    (reason : Text) : (scan.unwritten reason other).Shows numbers mark :=
  (h.setItem_of_ne hne _).congr rfl

theorem Shows.unwritten (h : scan.Shows numbers mark) (reason : Text) :
    (scan.unwritten reason mark).Shows numbers (mark.unwritten reason).1 :=
  (h.setItem _).congr rfl

theorem number_of_getElem? {n i : Nat} (hnumbers : scan.marks.map Mark.number = List.range n)
    (h : scan.marks[i]? = some mark) : mark.number = i := by
  have hnumber : (List.range n)[i]? = some mark.number := by
    rw [← hnumbers, List.getElem?_map, h]
    rfl
  obtain ⟨hlt, heq⟩ := List.getElem?_eq_some_iff.1 hnumber
  rw [List.getElem_range] at heq
  exact heq.symm

/-- Marks that are numbered from 0 on are found at their numbers. -/
theorem Shows.getElem? {n : Nat} (h : scan.Shows (List.range n) mark) :
    scan.marks[mark.number]? = some mark := by
  obtain ⟨i, hi⟩ := List.mem_iff_getElem?.1 h.mem
  rwa [number_of_getElem? h.numbers hi]

theorem numbers_previewed (scan : FileScan) (preview : List LineChange) :
    (scan.previewed preview).marks.map Mark.number = scan.marks.map Mark.number := by
  rw [FileScan.previewed, List.map_map]
  refine List.map_congr_left fun m _ => ?_
  dsimp only [Function.comp_apply]
  split
  · rfl
  · split <;> rfl

/-- A preview of the edits shows in the items only. -/
theorem Shows.previewed (h : scan.Shows numbers mark) (preview : List LineChange) :
    ∃ shown, (scan.previewed preview).Shows numbers shown ∧ shown.number = mark.number ∧
      shown.followUp = mark.followUp ∧ shown.item.line = mark.item.line ∧
      shown.item.status = mark.item.status := by
  have hnumbers := (scan.numbers_previewed preview).trans h.numbers
  refine ⟨_, ⟨List.mem_map_of_mem h.mem, hnumbers⟩, ?_⟩
  split
  · exact ⟨rfl, rfl, rfl, rfl⟩
  · split <;> exact ⟨rfl, rfl, rfl, rfl⟩

theorem exists_of_mem_previewed {preview : List LineChange}
    (h : other ∈ (scan.previewed preview).marks) :
    ∃ mark ∈ scan.marks, mark.number = other.number ∧ mark.followUp = other.followUp := by
  obtain ⟨mark, hmark, rfl⟩ := List.mem_map.1 h
  refine ⟨mark, hmark, ?_⟩
  split
  · exact ⟨rfl, rfl⟩
  · split <;> exact ⟨rfl, rfl⟩

theorem Shows.nodup_waiting {n : Nat} (h : scan.Shows (List.range n) mark) :
    (scan.waiting.map Mark.number).Nodup :=
  (List.filter_sublist.map Mark.number).nodup (h.numbers ▸ List.nodup_range)

theorem Shows.foldl_unwritten_of_ne {marks : List Mark}
    (hne : mark.number ∉ marks.map Mark.number) (h : scan.Shows numbers mark) (reason : Text) :
    (marks.foldl (·.unwritten reason ·) scan).Shows numbers mark := by
  induction marks generalizing scan with
  | nil => exact h
  | cons other marks ih =>
    rw [List.map_cons, List.mem_cons, not_or] at hne
    exact ih hne.2 (h.unwritten_of_ne hne.1 reason)

/-- Where nothing was written, the items of all marks that wait say so. -/
theorem Shows.foldl_unwritten {marks : List Mark} (hnodup : (marks.map Mark.number).Nodup)
    (hmark : mark ∈ marks) (h : scan.Shows numbers mark) (reason : Text) :
    (marks.foldl (·.unwritten reason ·) scan).Shows numbers (mark.unwritten reason).1 := by
  induction marks generalizing scan with
  | nil => cases hmark
  | cons m rest ih =>
    obtain ⟨hnot, hnodup⟩ := List.nodup_cons.1 hnodup
    rcases List.mem_cons.1 hmark with rfl | hmark
    · have hlast : (mark.unwritten reason).1.number ∉ rest.map Mark.number := hnot
      exact (h.unwritten reason).foldl_unwritten_of_ne hlast reason
    · refine ih hnodup hmark (h.unwritten_of_ne (fun heq => hnot ?_) reason)
      exact heq ▸ List.mem_map_of_mem hmark

end FileScan

namespace ScanJob

variable {job : ScanJob} {file text : Text} {path : Path} {grammar : Grammar}
  {scan scan' : FileScan} {numbers : List Nat} {mark other : Mark} {key : Text}
  {stale : List Int} {w w' : Workspace}

/-- How the mark of a new task ends. When its line was written, the task is anchored there, or its
item says why it is not; when the line was left, its item has failed. -/
inductive Ended (written left : Prop) (key : Text) (anchor : Anchor) (done : Mark)
    (w : Workspace) : Prop
  | anchored (hwritten : written) (hanchors : w.anchors key = .ok [anchor])
  | unrecorded (reason : Text) (hwritten : written) (hstatus : done.item.status = .created)
      (hmessage : done.item.message = "anchor not recorded: ".toList ++ reason)
      (hanchors : w.anchors key = .ok [])
  | failed (hleft : left) (hstatus : done.item.status = .failed)
      (hanchors : w.anchors key = .ok [])

namespace Ended

variable {written left written' left' : Prop} {anchor : Anchor} {done : Mark}

theorem imp (h : Ended written left key anchor done w) (hwritten : written → written')
    (hleft : left → left') : Ended written' left' key anchor done w := by
  cases h with
  | anchored h hanchors => exact .anchored (hwritten h) hanchors
  | unrecorded reason h hstatus hmessage hanchors =>
    exact .unrecorded reason (hwritten h) hstatus hmessage hanchors
  | failed h hstatus hanchors => exact .failed (hleft h) hstatus hanchors

theorem of_anchors (h : Ended written left key anchor done w)
    (hanchors : w'.anchors key = w.anchors key) : Ended written left key anchor done w' := by
  cases h with
  | anchored h hw => exact .anchored h (hanchors.trans hw)
  | unrecorded reason h hstatus hmessage hw =>
    exact .unrecorded reason h hstatus hmessage (hanchors.trans hw)
  | failed h hstatus hw => exact .failed h hstatus (hanchors.trans hw)

end Ended

/-- Finishing a mark changes no other mark. -/
theorem shows_of_finish (h : (job.finish file stale scan other).Yields w scan' w')
    (hne : mark.number ≠ other.number) (hshows : scan.Shows numbers mark) :
    scan'.Shows numbers mark := by
  cases finished_of_yields h with
  | left => exact hshows.unwritten_of_ne hne _
  | unanchored => exact (hshows.setItem_of_ne hne _).congr rfl
  | dropped => split <;> exact hshows.congr rfl
  | _ => exact hshows.congr rfl

/-- Finishing the marks of other keys leaves the mark of a key and its task. -/
theorem kept_of_foldlM_finish {marks : List Mark} {task : Option Json}
    (hother : ∀ other ∈ marks, mark.number ≠ other.number ∧
      ∀ k, other.followUp = .anchor k ∨ other.followUp = .drop k → k ≠ key)
    (hshows : scan.Shows numbers mark) (htask : w.store.document.tasks.task? key = task)
    (h : (marks.foldlM (job.finish file stale) scan).Yields w scan' w') :
    scan'.Shows numbers mark ∧ w'.store.document.tasks.task? key = task := by
  refine foldlM_keeps (P := fun s v => s.Shows numbers mark ∧
    v.store.document.tasks.task? key = task) ?_ ⟨hshows, htask⟩ h
  intro other hmem s v s' v' hs hstep
  obtain ⟨hne, hkeys⟩ := hother other hmem
  have hkept : GuardedAt (fun v => v.store.document.tasks.task? key = task) (fun _ => True)
      (job.finish file stale s other) v :=
    (job.anchorsGuarded_kept file key task).finish (fun _ _ _ => trivial) stale hkeys hs.2
  exact ⟨shows_of_finish hstep hne hs.1, hkept.leads hstep⟩

/-- The keys that other marks wait for are those of other new tasks, or the text has them. -/
theorem Marked.key_ne_of_waiting {preview : List LineChange} {k : Text}
    (h : job.Marked text scan) (hmark : mark ∈ scan.marks) (hfollow : mark.followUp = .anchor key)
    (habsent : Text.includes text key = false) (hother : other ∈ (scan.previewed preview).waiting)
    (hne : mark.number ≠ other.number)
    (hk : other.followUp = .anchor k ∨ other.followUp = .drop k) : k ≠ key := by
  rintro rfl
  obtain ⟨m, hm, hsame, hfollows⟩ := FileScan.exists_of_mem_previewed (List.mem_filter.1 hother).1
  rw [← hsame] at hne
  rw [← hfollows] at hk
  rcases hk with hk | hk
  · exact hne (h.unique mark hmark m hm k hfollow hk)
  · rw [h.named k (.inr (List.mem_map.2 ⟨m, hm, hk⟩))] at habsent
    cases habsent

section Created

variable (hwet : job.reconciler.dryRun = false) (hplain : Anchor.IsPlain file)
  (hfollow : mark.followUp = .anchor key) (hline : 1 ≤ mark.item.line)
  (hstatus : mark.item.status = .created)
include hwet hplain hfollow hline hstatus

/-- Finishing the mark of a new task anchors it, unless its line is stale or the store refuses. -/
theorem ended_of_finish (hshows : scan.Shows numbers mark) (hnew : w.store.document.NewAt key)
    (h : (job.finish file stale scan mark).Yields w scan' w') :
    ∃ done, done.number = mark.number ∧ scan'.Shows numbers done ∧
      Ended ((mark.item.line : Int) ∉ stale) ((mark.item.line : Int) ∈ stale) key
        ⟨file, mark.item.line⟩ done w' := by
  rw [finish] at h
  split at h
  · rename_i hstale
    obtain ⟨rfl, rfl⟩ := yields_pure.1 h
    exact ⟨(mark.unwritten _).1, rfl, hshows.unwritten _,
      .failed (List.contains_iff_mem.1 hstale) rfl hnew.anchors⟩
  · rename_i hfresh
    have hfresh : (mark.item.line : Int) ∉ stale := fun hmem =>
      hfresh (List.contains_iff_mem.2 hmem)
    have hwritten : Anchor.IsWritten ⟨file, mark.item.line⟩ :=
      ⟨hplain.addressable, Int.ofNat_le.2 hline⟩
    rw [hfollow] at h
    obtain ⟨answer, w₁, hattempt, hdone⟩ := yields_bind.1 h
    have hanchors := Reconciler.anchors_of_attempt_confirm hwet hnew hwritten hattempt
    cases answer with
    | ok result =>
      obtain ⟨rfl, rfl⟩ := yields_pure.1 hdone
      refine ⟨mark, rfl, hshows.congr rfl, .anchored hfresh (hanchors.resolve_right ?_)⟩
      rintro ⟨⟨e, he⟩, -⟩
      cases he
    | error e =>
      obtain ⟨rfl, rfl⟩ := yields_pure.1 hdone
      refine ⟨{ mark with item := { mark.item with
        message := "anchor not recorded: ".toList ++ e.message } }, rfl,
        (hshows.setItem _).congr (by rw [hfollow]; rfl), ?_⟩
      rcases hanchors with hanchors | ⟨-, hanchors⟩
      · exact .anchored hfresh hanchors
      · exact .unrecorded _ hfresh hstatus rfl hanchors

/-- Among the marks that wait, that of a new task ends as if it were the only one. -/
theorem ended_of_foldlM_finish {marks : List Mark} (hnodup : (marks.map Mark.number).Nodup)
    (hmark : mark ∈ marks)
    (hkeys : ∀ other ∈ marks, mark.number ≠ other.number →
      ∀ k, other.followUp = .anchor k ∨ other.followUp = .drop k → k ≠ key)
    (hshows : scan.Shows numbers mark) (hnew : w.store.document.NewAt key)
    (h : (marks.foldlM (job.finish file stale) scan).Yields w scan' w') :
    ∃ done, done.number = mark.number ∧ scan'.Shows numbers done ∧
      Ended ((mark.item.line : Int) ∉ stale) ((mark.item.line : Int) ∈ stale) key
        ⟨file, mark.item.line⟩ done w' := by
  obtain ⟨before, after, rfl⟩ := List.append_of_mem hmark
  rw [List.map_append, List.map_cons, List.nodup_append, List.nodup_cons] at hnodup
  obtain ⟨-, ⟨hafter, -⟩, hbefore⟩ := hnodup
  rw [List.foldlM_append, yields_bind] at h
  obtain ⟨scan₁, w₁, hfirst, hrest⟩ := h
  obtain ⟨scan₂, w₂, hown, hlast⟩ := yields_foldlM_cons.1 hrest
  have hne : ∀ other ∈ before, mark.number ≠ other.number := fun other hother heq =>
    hbefore _ (List.mem_map_of_mem hother) _ List.mem_cons_self heq.symm
  obtain ⟨hshows₁, htask₁⟩ := kept_of_foldlM_finish (fun other hother => ⟨hne other hother,
    hkeys other (List.mem_append_left _ hother) (hne other hother)⟩) hshows rfl hfirst
  obtain ⟨done, hnumber, hshows₂, hended⟩ :=
    ended_of_finish hwet hplain hfollow hline hstatus hshows₁ (hnew.of_task htask₁) hown
  have hne' : ∀ other ∈ after, mark.number ≠ other.number := fun other hother heq =>
    hafter (heq ▸ List.mem_map_of_mem hother)
  have hkeys' : ∀ other ∈ after, ∀ k, other.followUp = .anchor k ∨ other.followUp = .drop k →
      k ≠ key := fun other hother =>
    hkeys other (List.mem_append_right _ (List.mem_cons_of_mem _ hother)) (hne' other hother)
  obtain ⟨hshows', htask'⟩ := kept_of_foldlM_finish
    (fun other hother => ⟨hnumber ▸ hne' other hother, hkeys' other hother⟩) hshows₂ rfl hlast
  refine ⟨done, hnumber, hshows', hended.of_anchors ?_⟩
  rw [Workspace.anchors, Workspace.anchors, Document.anchors, Document.anchors, htask']

/-- When the edits of a file are committed, a new task ends by what became of its line. -/
theorem ended_of_commit (hdry : job.options.dryRun = false) (happlicable : scan.edits.Applicable)
    (hmarked : job.Marked text scan) (hmark : mark ∈ scan.marks) {edit : LineEdit}
    (hfind : scan.edits.find? mark.item.line = some edit)
    (habsent : Text.includes text key = false) (hnew : w.store.document.NewAt key)
    (h : (job.commit file path scan).Yields w scan' w') :
    ∃ answer v done, (scan.edits.commit path).run w = (answer, v) ∧
      scan'.marks[mark.number]? = some done ∧
      Ended (∃ after, scan.edits.Rewrites path w.disk v.disk mark.item.line edit.expected after)
        (scan.edits.Leaves path w.disk v.disk mark.item.line) key ⟨file, mark.item.line⟩ done
        w' := by
  obtain ⟨preview, -, houtcome⟩ := yields_commit hdry h
  have hshows : scan.Shows (List.range scan.marks.length) mark := ⟨hmark, hmarked.numbered⟩
  obtain ⟨shown, hshown, hnumber, hshownFollow, hshownLine, hshownStatus⟩ :=
    hshows.previewed preview
  have hanchor : shown.followUp = .anchor key := hshownFollow.trans hfollow
  have hwaiting : shown ∈ (scan.previewed preview).waiting :=
    List.mem_filter.2 ⟨hshown.mem, by rw [hanchor]; rfl⟩
  have hkeys : ∀ other ∈ (scan.previewed preview).waiting, shown.number ≠ other.number →
      ∀ k, other.followUp = .anchor k ∨ other.followUp = .drop k → k ≠ key :=
    fun other hother hne _ hk =>
      hmarked.key_ne_of_waiting hmark hfollow habsent hother (hnumber ▸ hne) hk
  rcases houtcome with
    ⟨e, reason, warning, hfailed, rfl⟩ | ⟨result, v, written, hcommit, rfl, hfinish⟩
  · obtain ⟨hw, htree⟩ := EditQueue.of_fails_commit hfailed
    have hstart : (((scan.previewed preview).warn warning).count { writeFailures := 1 }).Shows
        (List.range scan.marks.length) shown := hshown.congr rfl
    have hlast := hstart.foldl_unwritten hshown.nodup_waiting hwaiting reason
    refine ⟨_, w', _, hfailed, hnumber ▸ hlast.getElem?, .failed (.inl htree) rfl ?_⟩
    rw [hw]
    exact hnew.anchors
  · have hqueued : scan.edits.edits ≠ [] := List.ne_nil_of_mem (List.mem_of_find?_eq_some hfind)
    obtain ⟨current, made, hmade, hresult, hv⟩ := EditQueue.made_of_commit hqueued hcommit
    have hnew' : v.store.document.NewAt key := by
      rw [hv]
      exact hnew
    have hstart : (if result.applied.isEmpty then scan.previewed preview
        else (scan.previewed preview).count { filesWritten := 1 }).Shows
          (List.range scan.marks.length) shown ∧
        (if result.applied.isEmpty then scan.previewed preview
          else (scan.previewed preview).count { filesWritten := 1 }).waiting =
            (scan.previewed preview).waiting := by
      split
      · exact ⟨hshown, rfl⟩
      · exact ⟨hshown.congr rfl, rfl⟩
    rw [hstart.2] at hfinish
    obtain ⟨done, hdone, hshows', hended⟩ := ended_of_foldlM_finish hwet hplain hanchor
      (hshownLine ▸ hline) (hshownStatus.trans hstatus) hshown.nodup_waiting hwaiting hkeys hstart.1
      hnew' hfinish
    rw [hshownLine, hresult] at hended
    refine ⟨_, v, done, hcommit, hnumber ▸ hdone ▸ hshows'.getElem?, ?_⟩
    rcases EditQueue.rewrites_or_leaves happlicable hmade hline hfind with
      ⟨hfresh, hrewrites⟩ | ⟨hstale, hleaves⟩
    · exact hended.imp (fun _ => hrewrites) fun hstale => absurd hstale hfresh
    · exact hended.imp (fun hfresh => absurd hstale hfresh) fun _ => hleaves

end Created

/-- The edit that is queued for the line of a new task was made for that line, and it writes the key
of the task. -/
theorem Queued.exists_find? (hg : grammar.Proper)
    (hmarkers : scan.edits.OfMarkers job.Owns (job.scanner.scan text.contents grammar))
    {item : ScanItem} (h : job.Queued text scan.edits item key)
    (habsent : Text.includes text key = false) :
    ∃ edit ∈ scan.edits.edits, scan.edits.find? item.line = some edit ∧
      edit.expected = item.lineBefore ∧
      ∃ s ∈ edit.splices, s.text = Splice.keyText key job.settings.insertionFormat := by
  have hunheld : KeyToken.occursIn item.lineBefore key = false := by
    rw [← Bool.not_eq_true]
    intro hoccurs
    rw [Text.includes_of_mem_contents (List.mem_of_getElem? h.before)
      (KeyToken.infix_of_occursIn hoccurs)] at habsent
    cases habsent
  obtain ⟨s, hs, htext⟩ := h.splice hunheld
  rw [EditQueue.splicesAt] at hs
  cases hfind : scan.edits.find? item.line with
  | none =>
    rw [hfind] at hs
    cases hs
  | some edit =>
    rw [hfind] at hs
    have hedit := List.mem_of_find?_eq_some hfind
    refine ⟨edit, hedit, rfl, ?_, s, hs, htext⟩
    have hnumber : edit.number = item.line := by simpa using List.find?_some hfind
    obtain ⟨c, hc, -, hline, hcontent, -⟩ := (hmarkers.edits edit hedit).owner s hs
    obtain ⟨-, hbefore, -⟩ := Scanner.of_mem_scan hg hc
    have hline : c.line = item.line := Int.ofNat_inj.1 (hline.trans hnumber)
    rw [hline, h.before] at hbefore
    rw [← hcontent, ← Option.some.inj hbefore]

/-- Committing the edits of a file never ends its scan. -/
theorem exists_yields_commit {changes : List Change}
    (hpath : path.hasNull = false) (happlicable : scan.edits.Applicable)
    (hsound : w.Sound scan.Waits changes) :
    ∃ scan' w', (job.commit file path scan).Yields w scan' w' := by
  obtain ⟨preview, hpreview⟩ := happlicable.exists_preview
  have hnone : ∀ e : Failure, e.isStore = true → e.isStore = false → False := by
    intro e h h'
    rw [h] at h'
    cases h'
  have hkeys : ∀ followUp ∈ scan.followUps, ∀ key,
      followUp = .anchor key ∨ followUp = .drop key → scan.Waits key := by
    rintro _ hmem key (rfl | rfl)
    · exact .inl hmem
    · exact .inr hmem
  obtain ⟨scan', w', hyields, -⟩ := ((job.anchorsGuarded_sound file changes).commit hnone
    (writeKeeps_sound path changes) hpath
    (hpreview ▸ .ok preview) hkeys (fun text => by
      obtain ⟨result, hresult, -⟩ := happlicable.exists_apply text
      exact hresult ▸ .ok result) hsound).exists_yields
  exact ⟨scan', w', hyields⟩

/-- No anchor without its key on disk. Whatever becomes of the file before its edits are committed,
however the write ends and whatever the store refuses: a new task whose key the text did not have is
anchored at the line of its marker when that line was written with the splices that were queued for
it, and the line then holds the key. Otherwise it has no anchor, and its item says so; when the item
has failed, the line was left as it was. -/
theorem commit_created {words : List Text} {patterns : List Pattern} {mentions : Bool} {v : Workspace}
    {i : Nat} (hg : grammar.Proper) (hscanner : job.scanner = .make words patterns mentions)
    (hdry : job.options.dryRun = false) (hwet : job.reconciler.dryRun = false)
    (hformat : job.settings.insertionFormat = "(\x7bkey\x7d)".toList)
    (hplain : Anchor.IsPlain file) (hdisplay : w.disk.tree.displayPath path job.repo = .ok file)
    (hread : w.disk.tree.readText path = .ok text)
    (hgather : (job.gather file path text grammar).Yields w scan v)
    (hmark : scan.marks[i]? = some mark) (hstatus : mark.item.status = .created)
    (hkey : mark.item.taskKey = some key) (habsent : Text.includes text key = false) (disk : Disk) :
    (Text.contents text)[mark.item.line - 1]? = some mark.item.lineBefore ∧
      ∃ answer u scan' w' done,
        (scan.edits.commit path).run { v with disk } = (answer, u) ∧
        (job.commit file path scan).Yields { v with disk } scan' w' ∧
        (disk = v.disk → (job.visitFile path grammar).Yields w scan' w') ∧
        scan'.marks[i]? = some done ∧
        Ended
          (∃ after, scan.edits.Rewrites path disk u.disk mark.item.line mark.item.lineBefore after ∧
            KeyToken.occursIn after key = true)
          (scan.edits.Leaves path disk u.disk mark.item.line) key ⟨file, mark.item.line⟩ done w' := by
  have hwords : Signal.Solid job.scanner.words := by
    rw [hscanner]
    exact Signal.solid_prepare words
  obtain ⟨hmarked, hmarkers, hready⟩ := of_gather hdry hg hwords hgather
  have hmem := List.mem_of_getElem? hmark
  obtain ⟨k, hfollow, hk⟩ := hmarked.created mark hmem hstatus
  obtain rfl : k = key := Option.some.inj (hk.symm.trans hkey)
  have hqueued := hmarked.queued mark hmem k hfollow
  obtain ⟨hnew, changes, hsound⟩ := hready k (List.mem_map.2 ⟨mark, hmem, hfollow⟩) habsent
  have hnew' : ({ v with disk } : Workspace).store.document.NewAt k := hnew
  obtain ⟨edit, hedit, hfind, hexpected, s, hs, htext⟩ := hqueued.exists_find? hg hmarkers habsent
  have happlicable := hmarkers.applicable fun c hc => (Scanner.of_mem_scan hg hc).1
  have hsound' : ({ v with disk } : Workspace).Sound scan.Waits changes :=
    ⟨hsound.document, hsound.path, hsound.changes⟩
  obtain ⟨scan', w', hcommit⟩ : ∃ scan' w', (job.commit file path scan).Yields _ scan' w' :=
    exists_yields_commit (FileTree.hasNull_of_displayPath hdisplay) happlicable hsound'
  obtain ⟨answer, u, done, hrun, hdone, hended⟩ := ended_of_commit hwet hplain hfollow
    hqueued.line_pos hstatus hdry happlicable hmarked hmem hfind habsent hnew' hcommit
  have hnumber := FileScan.number_of_getElem? hmarked.numbered hmark
  refine ⟨hqueued.before, answer, u, scan', w', done, hrun, hcommit, ?_, hnumber ▸ hdone,
    hended.imp ?_ id⟩
  · rintro rfl
    rw [visitFile_eq_gather]
    have hanswer : (attemptFile (look (·.readText path))).Yields w (.ok text) w :=
      yields_attemptFile_of_yields (yields_look.2 ⟨hread, rfl⟩)
    exact yields_bind.2 ⟨file, w, yields_look.2 ⟨hdisplay, rfl⟩, yields_bind.2
      ⟨_, w, hanswer, yields_bind.2 ⟨scan, v, hgather, hcommit⟩⟩⟩
  · rintro ⟨after, hrewrites⟩
    refine ⟨after, hexpected ▸ hrewrites, ?_⟩
    obtain ⟨current, made, -, -, -, hafter⟩ := hrewrites
    rw [EditQueue.splicesAt, hfind] at hafter
    refine (hmarkers.edits edit hedit).occursIn (fun c hc hsignal => ?_) hs ?_ hafter
    · exact (Scanner.marker_of_mem_scan hwords hc hsignal).1.segmentStop_le
    · rw [htext, hformat]
      rfl

/-- Whatever becomes of a file with one marker, its new task ends so. -/
theorem commit_created_one :
    let text := "# TODO: x\n".toList
    let grammar := Grammar.row "hash" "py" ["#"] []
    ∃ (job : ScanJob) (w v : Workspace) (scan : FileScan) (mark : Mark),
      (job.gather "a.py".toList (.ofText "a.py".toList) text grammar).Yields w scan v ∧
      scan.marks[0]? = some mark ∧ mark.item.status = .created ∧
      mark.item.taskKey = some "PROJ-1".toList ∧
      ∀ disk, ∃ answer u scan' w' done,
        (scan.edits.commit (.ofText "a.py".toList)).run { v with disk } = (answer, u) ∧
        (job.commit "a.py".toList (.ofText "a.py".toList) scan).Yields { v with disk } scan' w' ∧
        scan'.marks[0]? = some done ∧
        Ended
          (∃ after, scan.edits.Rewrites (.ofText "a.py".toList) disk u.disk mark.item.line
            mark.item.lineBefore after ∧ KeyToken.occursIn after "PROJ-1".toList = true)
          (scan.edits.Leaves (.ofText "a.py".toList) disk u.disk mark.item.line) "PROJ-1".toList
          ⟨"a.py".toList, mark.item.line⟩ done w' := by
  intro text grammar
  obtain ⟨c, hc⟩ : ∃ c : Candidate, c = ⟨1, 2, "# TODO: x".toList, ⟨0, 9, 1, 9⟩,
    some "TODO".toList, 6, 9, none, [], "x".toList⟩ := ⟨_, rfl⟩
  obtain ⟨job, hjob⟩ : ∃ job : ScanJob, job =
      { repo := [], settings := {}, options := { createTasks := true }
        scanner := .make ({} : Settings).signalWords [ticketPattern] false, roots := []
        gitRoot := none, reconciler := ⟨[], 7, [], false⟩, inquiry := .start } := ⟨_, rfl⟩
  have hscanner : job.scanner = .make ({} : Settings).signalWords [ticketPattern] false := by
    rw [hjob]
  have hlines : Text.contents text = ["# TODO: x".toList] := by decide
  have hspans : grammar.spans ["# TODO: x".toList] = [[⟨0, 9, 1, 9⟩]] := by
    decide +kernel
  have hspan : job.scanner.scanSpan 1 "# TODO: x".toList ⟨0, 9, 1, 9⟩ = [c] := by
    rw [hscanner, Scanner.make, prepare_default, hc]
    decide +kernel
  have hscan : job.scanner.scan (Text.contents text) grammar = [c] := by
    rw [hlines, Scanner.scan, hspans, List.zip_cons_cons, Scanner.scanFrom, Scanner.scanLine,
      List.flatMap_singleton, hspan, hc]
    cbv
  obtain ⟨w, hw⟩ : ∃ w : Workspace, w = .inMemory
    ⟨[(["a.py".toList], .file (Utf8.encode "# TODO: x\n".toList))], by decide⟩ .empty := ⟨_, rfl⟩
  have hrun : ((job.gather "a.py".toList (.ofText "a.py".toList) text grammar).run w).1.toOption.map
      (fun scan => scan.marks.map fun mark => (mark.item.status, mark.item.taskKey)) =
        some [(.created, some "PROJ-1".toList)] := by
    rw [gather, hscan, hc, hw, hjob]
    decide +kernel
  have hsome := congrArg Option.isSome hrun
  rw [Option.isSome_map] at hsome
  obtain ⟨scan, hgather⟩ := exists_yields hsome
  rw [hgather] at hrun
  obtain ⟨mark, hmarks, hmark⟩ := List.map_eq_singleton_iff.1 (Option.some.inj hrun)
  obtain ⟨hstatus, hkey⟩ := Prod.mk.inj hmark
  have hfirst : scan.marks[0]? = some mark := by rw [hmarks]; rfl
  refine ⟨job, w, _, scan, mark, hgather, hfirst, hstatus, hkey, fun disk => ?_⟩
  have hproper : grammar.Proper := ⟨by decide, by decide⟩
  have hdisplay : w.disk.tree.displayPath (.ofText "a.py".toList) job.repo =
      .ok "a.py".toList := by
    rw [hw, hjob]
    cbv
  have hread : w.disk.tree.readText (.ofText "a.py".toList) = .ok text := by
    rw [hw]
    cbv
  obtain ⟨-, answer, u, scan', w', done, hcommit, hyields, -, hdone, hended⟩ := commit_created hproper
    hscanner (by rw [hjob]) (by rw [hjob]) (by rw [hjob]) ⟨by decide, by decide, by decide⟩ hdisplay
    hread hgather hfirst hstatus hkey (by decide +kernel) disk
  exact ⟨answer, u, scan', w', done, hcommit, hyields, hdone, hended⟩

end ScanJob

end TodoTracker
