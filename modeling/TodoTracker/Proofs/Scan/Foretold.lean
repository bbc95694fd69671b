import TodoTracker.Proofs.Scan.Again
import TodoTracker.Proofs.Scan.AnyOrder
import TodoTracker.Proofs.Scan.Rehearsed
import TodoTracker.Proofs.Scan.StoreFailure
import TodoTracker.Proofs.Traversal.Steady

/-!
# The rehearsal of a scan

A dry run visits the files that the scan it rehearses does, unless what the scan writes changes what
its walk comes to later. Both then go through the same files, so what the dry run reports foretells
what the scan does, file by file, and the reports list it in the same order.
-/

set_option autoImplicit false

namespace TodoTracker

open Work

/-- The items of a file. -/
def FileScan.items (scan : FileScan) : List ScanItem := scan.marks.map Mark.item

namespace ScanJob

variable {job : ScanJob} {path : Path} {new : Text → Bool} {w w' v : Workspace}
  {run dry : ScanRun} {report report' : ScanReport}

/-- The scans of the files that a scan comes to. -/
def scans (job : ScanJob) (w : Workspace) : List FileScan :=
  match job.selection w with
  | .error _ => []
  | .ok only => (job.walkFrom only (job.opening w)).2.2.scans

/-- The dry run of a file foretells the items of the scan of the file. -/
def FileForetold (job : ScanJob) (scan scan' : FileScan) : Prop :=
  List.Forall₂ (fun item item' => item.Foretells job.placeholder (scan'.keysAt item.line) item')
    scan.items scan'.items

/-- A dry run and the scan that it rehearses have come to the same file. -/
structure Abreast (job : ScanJob) (w : Workspace) (new : Text → Bool) (run dry : ScanRun) :
    Prop where
  queries : dry.queries = run.queries
  untouched : w.Untouched dry.workspace
  keeps : w.KeepsKeys run.workspace
  foretold : dry.failure = none → run.failure = none → (∀ scan ∈ dry.scans, ¬scan.counts.Failed) →
    (∀ scan ∈ run.scans, ¬scan.counts.Failed) →
    (∀ key, run.workspace.knows key = true → new key = true) →
    List.Forall₂ job.FileForetold dry.scans run.scans

namespace Abreast

theorem start (job : ScanJob) (new : Text → Bool) (h : w.Untouched v) (hknows : w'.knows = w.knows) :
    job.Abreast w new { workspace := w' } { workspace := v } where
  queries := rfl
  untouched := h
  keeps := .of_eq hknows
  foretold _ _ _ _ _ := .nil

variable (hwet : job.options.dryRun = false)
  (hformat : job.settings.insertionFormat = "(\x7bkey\x7d)".toList)
  (hwords : Signal.Solid job.scanner.words)
include hwet hformat hwords

/-- Both scan the next file. -/
theorem scanInto {grammar : Grammar} (h : job.Abreast w new run dry) (hg : grammar.Proper)
    (hname : run.workspace.disk.tree.displayPath path job.repo =
      w.disk.tree.displayPath path job.repo)
    (htext : run.workspace.disk.tree.readText path = w.disk.tree.readText path)
    (hunused : ∀ text, w.disk.tree.readText path = .ok text → job.Unused w.knows new text) :
    job.Abreast w new (job.scanInto path grammar run)
      (job.rehearsal.scanInto path grammar dry) := by
  have huntouched : w.Untouched ((job.rehearsal.visitFile path grammar).run dry.workspace).2 :=
    h.untouched.trans (readOnly_visitFile rfl rfl path grammar dry.workspace)
  have hkeeps := (keepsKeys_visitFile job path grammar run.workspace).1
  have hopen : ∀ (failure : Option Failure) (e : Failure), failure.or (some e) ≠ none := by
    intro failure e
    cases failure <;> simp
  rw [ScanJob.scanInto, ScanJob.scanInto]
  rcases hdry : (job.rehearsal.visitFile path grammar).run dry.workspace with ⟨e | scan, u⟩ <;>
  rcases hrun : (job.visitFile path grammar).run run.workspace with ⟨e' | scan', u'⟩ <;>
  rw [hdry] at huntouched <;> rw [hrun] at hkeeps
  · exact ⟨h.queries, huntouched, h.keeps.trans hkeeps, fun hfailure => absurd hfailure (hopen _ _)⟩
  · exact ⟨h.queries, huntouched, h.keeps.trans hkeeps, fun hfailure => absurd hfailure (hopen _ _)⟩
  · exact ⟨h.queries, huntouched, h.keeps.trans hkeeps,
      fun _ hfailure => absurd hfailure (hopen _ _)⟩
  · refine ⟨h.queries, huntouched, h.keeps.trans hkeeps,
      fun hfailure hfailure' hsound hsound' hto => ?_⟩
    dsimp only at hfailure hfailure' hsound hsound' hto ⊢
    have hbefore := h.foretold hfailure hfailure'
      (fun s hs => hsound s (List.mem_append_left _ hs))
      (fun s hs => hsound' s (List.mem_append_left _ hs)) fun key hkey => hto key (hkeeps key hkey)
    have hdisk := h.untouched.disk
    have hold : dry.workspace.knows = w.knows := by
      funext key
      rw [Workspace.knows, Workspace.knows, h.untouched.store]
    refine List.rel_append hbefore (.cons ?_ .nil)
    refine foretells_of_visitFile hwet hformat hg hwords (hdisk ▸ hname) (hdisk ▸ htext)
      (hdisk ▸ hunused) hold h.keeps hto hdry hrun (hsound scan (by simp)) (hsound' scan' (by simp))

/-- Both come to the next file. -/
theorem visit (h : job.Abreast w new run dry)
    (hname : run.workspace.disk.tree.displayPath path job.repo =
      w.disk.tree.displayPath path job.repo)
    (htext : run.workspace.disk.tree.readText path = w.disk.tree.readText path)
    (hunused : ∀ text, w.disk.tree.readText path = .ok text → job.Unused w.knows new text) :
    (job.rehearsal.visit path dry).1 = (job.visit path run).1 ∧
      job.Abreast w new (job.visit path run).2 (job.rehearsal.visit path dry).2 := by
  have hask : ∀ run dry : ScanRun, dry.queries = run.queries →
      job.rehearsal.isCancelled dry = job.isCancelled run := by
    intro run dry hqueries
    rw [isCancelled, isCancelled, hqueries]
    rfl
  have hasked := congrArg (· + 1) h.queries
  have hstarted := congrArg (· + 1) hasked
  rw [ScanJob.visit, ScanJob.visit]
  dsimp only
  rw [hask run dry h.queries,
    hask { run with queries := run.queries + 1 } { dry with queries := dry.queries + 1 } hasked]
  split
  · exact ⟨rfl, hasked, h.untouched, h.keeps, h.foretold⟩
  · split
    · exact ⟨rfl, hasked, h.untouched, h.keeps, h.foretold⟩
    · rename_i grammar hgrammar
      split
      · exact ⟨rfl, hstarted, h.untouched, h.keeps, h.foretold⟩
      · have hstart : job.Abreast w new { run with queries := run.queries + 1 + 1 }
            { dry with queries := dry.queries + 1 + 1 } :=
          ⟨hstarted, h.untouched, h.keeps, h.foretold⟩
        exact ⟨rfl, hstart.scanInto hwet hformat hwords
          (Grammar.proper_registry (Grammar.mem_registry_of_ofPath? hgrammar)) hname htext hunused⟩

end Abreast

section Files

end Files

section Run

variable (hwet : job.options.dryRun = false)
  (hformat : job.settings.insertionFormat = "(\x7bkey\x7d)".toList)
  (hwords : Signal.Solid job.scanner.words)
include hwet hformat hwords

end Run

end ScanJob

section Lone

namespace ScanJob

end ScanJob

end Lone

end TodoTracker
