import TodoTracker.Proofs.Files.Foreign
import TodoTracker.Proofs.Scan.EditFree
import TodoTracker.Proofs.Scan.Visit

/-!
# The scan of a file within bounds

Every call of the task store that the scan of a file makes is an attempt, so what the store refuses
does not end the scan. What can end it are the other failures of these calls, those of edits, and a
path without a name to be shown under.
-/

set_option autoImplicit false

namespace TodoTracker

open Work FailsOnly

namespace FileTree

variable {tree : FileTree} {path : Path}

theorem hasNull_of_displayPath {repo : Location} {file : Text}
    (h : tree.displayPath path repo = .ok file) : path.hasNull = false := by
  cases hnull : path.hasNull with
  | false => rfl
  | true =>
    rw [displayPath, resolve, realPath, if_pos hnull] at h
    cases h

theorem readText_failsOnly (h : path.hasNull = false) :
    FailsOnly (fun e => e.isFile = true) (tree.readText path) := by
  have hbytes : FailsOnly (fun e => e.isFile = true) (tree.readBytes path) := by
    rw [readBytes, h]
    split
    · contradiction
    · split
      · exact .ok _
      · exact .error rfl
      · exact .error rfl
  refine hbytes.bind fun bytes _ => ?_
  split
  · exact .ok _
  · exact .error rfl

end FileTree

theorem EditQueue.add_failsOnly (queue : EditQueue) (file : Text) (edit : LineEdit) :
    FailsOnly (fun e => e.isEdit = true) (queue.add file edit) := by
  rw [add]
  refine .ite (fun _ => .ok _) fun _ => ?_
  split
  · exact .ok _
  · exact .ite (fun _ => .error rfl) fun _ => .ok _

namespace ScanJob

variable {job : ScanJob} {K : Text → Prop} {P : Workspace → Prop} {E : Failure → Prop}
  {file : Text} {path : Path} {scan : FileScan} {w : Workspace}

/-- The calls of the store about anchors in a file, of the keys in `K`, keep `P` and fail only as `E`
allows. -/
structure AnchorsGuarded (job : ScanJob) (file : Text) (K : Text → Prop) (P : Workspace → Prop)
    (E : Failure → Prop) : Prop where
  confirm : ∀ key, K key → ∀ line w, P w →
    GuardedAt P E (job.reconciler.confirm key ⟨file, line⟩) w
  remove : ∀ key, K key → ∀ line w, P w → GuardedAt P E (Tasks.remove key ⟨file, line⟩) w

/-- Writing a file that was read keeps `P`. -/
def WriteKeeps (path : Path) (P : Workspace → Prop) : Prop :=
  ∀ text text' w, P w → w.disk.tree.readText path = .ok text →
    P { w with disk := (w.disk.write path text').2 }

/-- All calls of the store that the scan of a file makes keep `P` and fail only as `E` allows, and
writing the file keeps `P`. -/
structure CallsGuarded (job : ScanJob) (file : Text) (path : Path) (K : Text → Prop)
    (P : Workspace → Prop) (E : Failure → Prop) : Prop extends
    job.AnchorsGuarded file K P E where
  write : WriteKeeps path P
  has : ∀ key w, P w → GuardedAt P E (Tasks.has key) w
  create : ∀ title attributes w, P w →
    GuardedAt P E (Tasks.create (Seed.ofAttributes title attributes).fields) w

-- what the attempts at these calls do not answer is in `E'`
variable {E' : Failure → Prop} (hleft : ∀ e, E e → e.isStore = false → E' e)
include hleft

theorem guarded_attempt {α : Type} {work : Work α} (h : GuardedAt P E work w) :
    GuardedAt P E' (attempt work) w :=
  h.attempt.mono fun e he => hleft e he.1 he.2

section Anchors

variable (hanchors : job.AnchorsGuarded file K P E)
include hanchors

theorem AnchorsGuarded.confirmKey {key : Text} (hkey : K key) (hw : P w) :
    GuardedAt P E' (job.confirmKey file scan key) w := by
  rw [ScanJob.confirmKey]
  split
  · exact .pure _ hw
  · refine (guarded_attempt hleft (hanchors.confirm _ hkey _ _ hw)).andThen fun answer v hv => ?_
    split <;> exact .pure _ hv

theorem AnchorsGuarded.finish (stale : List Int) {mark : Mark}
    (hkey : ∀ key, mark.followUp = .anchor key ∨ mark.followUp = .drop key → K key) (hw : P w) :
    GuardedAt P E' (job.finish file stale scan mark) w := by
  rw [ScanJob.finish]
  split
  · exact .pure _ hw
  · dsimp only
    split
    · rename_i key hanchor
      refine (guarded_attempt hleft (hanchors.confirm _ (hkey key (.inl hanchor)) _ _ hw)).andThen
        fun answer v hv => ?_
      split <;> exact .pure _ hv
    · rename_i key hdrop
      refine (guarded_attempt hleft (hanchors.remove _ (hkey key (.inr hdrop)) _ _ hw)).andThen
        fun answer v hv => ?_
      split
      · split <;> exact .pure _ hv
      · exact .pure _ hv
    · exact .pure _ hw

omit hanchors hleft in
theorem guarded_commitEdits (hwrite : WriteKeeps path P)
    (hpath : path.hasNull = false) {queue : EditQueue}
    (happly : ∀ text, FailsOnly E' (queue.apply text)) (hw : P w) :
    GuardedAt P E' (attemptFile (queue.commit path)) w := by
  have hcommit : GuardedAt P (fun e => e.isFile = true ∨ E' e) (queue.commit path) w := by
    rw [EditQueue.commit]
    split
    · exact .pure _ hw
    · refine (GuardedAt.look hw ((FileTree.readText_failsOnly hpath).mono fun _ h => .inl h)).bind
        fun text v hlook hv => ?_
      obtain ⟨hread, rfl⟩ := yields_look.1 hlook
      refine (GuardedAt.ofExcept hv ((happly text).mono fun _ h => .inr h)).bind
        fun result u happlied hu => ?_
      obtain ⟨-, rfl⟩ := yields_ofExcept.1 happlied
      dsimp only
      split
      · refine (GuardedAt.onDisk (hwrite _ _ _ hu hread)
          ((Disk.write_failsOnly _ hpath _).mono ?_)).andThen fun _ _ ht => .pure _ ht
        rintro _ ⟨_, rfl⟩
        exact .inl rfl
      · exact .pure _ hu
  refine hcommit.attemptFile.mono fun e he => ?_
  rcases he with ⟨h | h, hfile⟩
  · rw [hfile] at h
    cases h
  · exact h

/-- Committing the edits of a file ends the scan only where these cannot be made. -/
theorem AnchorsGuarded.commit (hwrite : WriteKeeps path P) (hpath : path.hasNull = false)
    (hpreview : FailsOnly E' scan.edits.preview)
    (hkeys : ∀ followUp ∈ scan.followUps, ∀ key,
      followUp = .anchor key ∨ followUp = .drop key → K key)
    (happly : ∀ text, FailsOnly E' (scan.edits.apply text)) (hw : P w) :
    GuardedAt P E' (job.commit file path scan) w := by
  refine (GuardedAt.ofExcept hw hpreview).andThen fun preview v hv => ?_
  dsimp only
  split
  · exact .pure _ hv
  · refine (guarded_commitEdits hwrite hpath happly hv).andThen fun answer v hv => ?_
    split
    · exact .pure _ hv
    · refine .foldlM (fun mark hmark scan u hu => hanchors.finish hleft _ (hkeys _ ?_) hu) _ hv
      rw [← FileScan.followUps_previewed]
      refine (FileScan.waits_of_mem_waiting (?_ : mark ∈ FileScan.waiting _)).1
      split at hmark <;> exact hmark

end Anchors

section Calls

variable (hcalls : job.CallsGuarded file path K P E)
include hcalls

theorem CallsGuarded.decide (c : Candidate) (hw : P w) :
    GuardedAt P E' (Work.attempt (job.decide c)) w := by
  refine guarded_attempt hleft ?_
  rw [ScanJob.decide]
  split
  · exact .pure _ hw
  · exact (hcalls.has _ _ hw).andThen fun _ _ hv => .pure _ hv

theorem CallsGuarded.takeKey (title : Text) (attributes : Attributes) (hw : P w) :
    GuardedAt P E' (job.takeKey (.ofAttributes title attributes)) w := by
  rw [ScanJob.takeKey]
  split
  · exact .pure _ hw
  · exact guarded_attempt hleft (hcalls.create _ _ _ hw)

theorem CallsGuarded.scanCandidate (hedit : ∀ e, e.isEdit = true → E' e) (c : Candidate)
    (hw : P w) : GuardedAt P E' (job.scanCandidate file path scan c) w := by
  have hadd : ∀ (scan : FileScan) edit, FailsOnly E' (scan.edits.add path.text edit) :=
    fun scan edit => (scan.edits.add_failsOnly path.text edit).mono hedit
  refine (hcalls.decide hleft c hw).andThen fun answer v hv => ?_
  split
  · exact .pure _ hv
  · dsimp only
    split
    · refine (hcalls.takeKey hleft _ _ hv).andThen fun answer v hv => ?_
      split
      · exact .pure _ hv
      · exact (GuardedAt.ofExcept hv (hadd _ _)).andThen fun _ _ hu => .pure _ hu
    · exact .pure _ hv
    · exact (GuardedAt.ofExcept hv (hadd _ _)).andThen fun _ _ hu => .pure _ hu
    · exact .pure _ hv

end Calls

/-- Scanning a file ends the scan only where the file has no name to be shown under or its edits
cannot be made. -/
theorem CallsGuarded.visitFile {grammar : Grammar}
    (hcalls : ∀ file, w.disk.tree.displayPath path job.repo = .ok file →
      job.CallsGuarded file path K P E)
    (hall : ∀ key, K key) (hedit : ∀ e, e.isEdit = true → E' e)
    (hdisplay : FailsOnly E' (w.disk.tree.displayPath path job.repo))
    (hqueue : ∀ queue : EditQueue,
      FailsOnly E' queue.preview ∧ ∀ text, FailsOnly E' (queue.apply text))
    (hw : P w) : GuardedAt P E' (job.visitFile path grammar) w := by
  refine (GuardedAt.look hw hdisplay).bind fun file v hfile hv => ?_
  obtain ⟨hfile, rfl⟩ := yields_look.1 hfile
  have hpath := FileTree.hasNull_of_displayPath hfile
  have hcalls := hcalls file hfile
  have hread : GuardedAt P E' (attemptFile (look (·.readText path))) v := by
    refine (GuardedAt.look hv (FileTree.readText_failsOnly hpath)).attemptFile.mono fun e he => ?_
    rw [he.1] at he
    cases he.2
  refine hread.andThen fun answer v hv => ?_
  split
  · exact .pure _ hv
  · refine (GuardedAt.foldlM (fun c _ scan u hu => hcalls.scanCandidate hleft hedit c hu) _
      hv).andThen fun scan₁ v hv => ?_
    refine (GuardedAt.foldlM (fun key _ scan u hu => hcalls.confirmKey hleft (hall key) hu) _
      hv).andThen fun scan₂ v hv => ?_
    exact hcalls.commit hleft hcalls.write hpath (hqueue _).1 (fun _ _ key _ => hall key) (hqueue _).2 hv

end ScanJob

end TodoTracker
