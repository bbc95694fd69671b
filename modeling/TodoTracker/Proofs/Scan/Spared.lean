import TodoTracker.Proofs.Files.Links
import TodoTracker.Proofs.Scan.Again
import TodoTracker.Proofs.Scan.Apart
import TodoTracker.Proofs.Scan.Through
import TodoTracker.Proofs.Task.Kept

/-!
# What a scan leaves in the tasks

A scan records and removes code anchors, and touches nothing else of a task but the time of its last
change. The anchors that it removes are in a file that it has scanned, or below one of its roots,
under their old or their new name. All other references stay, and in their order.
-/

set_option autoImplicit false

namespace TodoTracker

open Work

/-- The disks that a scan of files may come to: it saves the tasks and writes files that it has read,
and others make their changes. -/
inductive Disk.CameFrom (store : Option Path) (changes : List Change) (files : List Path)
    (disk : Disk) : Disk → Prop
  | start : CameFrom store changes files disk disk
  | saved {d d' : Disk} (h : CameFrom store changes files disk d) (hsaved : SavedFrom store d d') :
      CameFrom store changes files disk d'
  | written {d : Disk} {path : Path} {text : Text} (h : CameFrom store changes files disk d)
      (hpath : path ∈ files) (hread : d.tree.readText path = .ok text) (text' : Text) :
      CameFrom store changes files disk (d.write path text').2
  | changed {d : Disk} (h : CameFrom store changes files disk d) :
      CameFrom store changes files disk { d with tree := (d.tree.applyAll changes).2 }

namespace Disk.CameFrom

open FileTree

variable {store : Option Path} {changes : List Change} {files files' : List Path}
  {disk disk' : Disk}

theorem mono (h : CameFrom store changes files disk disk') (hfiles : files ⊆ files') :
    CameFrom store changes files' disk disk' := by
  induction h with
  | start => exact .start
  | saved _ hsaved ih => exact .saved ih hsaved
  | written _ hpath hread text' ih => exact .written ih (hfiles hpath) hread text'
  | changed _ ih => exact .changed ih

/-- Where others change nothing, no link changes. -/
theorem sameLinks (hstore : ∀ path, store = some path → disk.tree.Straight path)
    (hfiles : ∀ path ∈ files, hereName ∉ path.names) (h : CameFrom store [] files disk disk') :
    SameLinks disk.tree disk'.tree := by
  induction h with
  | start => exact .refl _
  | saved _ hsaved ih =>
    exact ih.trans (hsaved.sameLinks fun path hpath => ih.straight (hstore path hpath))
  | @written d path text _ hpath hread text' ih =>
    obtain ⟨location, bytes, hfind⟩ := find_of_readText hread
    have hdots := hfiles path hpath
    exact ih.trans (sameLinks_write ⟨hdots, location, ne_nil_of_file (lookup?_of_find hfind),
      realFrom_of_find hdots hfind⟩ text')
  | changed _ ih => exact ih

end Disk.CameFrom

/-- The files were only changed as a scan may change them, and the tasks keep their fields and the
references in `keep`. -/
structure Workspace.Spares (files : List Path) (keep : Json → Bool) (w v : Workspace) : Prop where
  disk : Disk.CameFrom w.store.path w.afterCreate files w.disk v.disk
  path : v.store.path = w.store.path
  changes : v.afterCreate = w.afterCreate
  tasks : w.store.document.Keeps keep v.store.document

namespace Workspace.Spares

variable {files files' : List Path} {keep : Json → Bool} {w v : Workspace}

theorem refl (w : Workspace) : w.Spares files keep w := ⟨.start, rfl, rfl, .refl _⟩

theorem mono (h : w.Spares files keep v) (hfiles : files ⊆ files') : w.Spares files' keep v :=
  ⟨h.disk.mono hfiles, h.path, h.changes, h.tasks⟩

theorem of_eq {u : Workspace} (h : w.Spares files keep v) (hdisk : u.disk = v.disk)
    (hstore : u.store = v.store) (hchanges : u.afterCreate = v.afterCreate) :
    w.Spares files keep u :=
  ⟨hdisk ▸ h.disk, hstore ▸ h.path, hchanges ▸ h.changes, hstore ▸ h.tasks⟩

theorem saved {disk : Disk} (h : w.Spares files keep v)
    (hsaved : Disk.SavedFrom v.store.path v.disk disk) : w.Spares files keep { v with disk } :=
  ⟨h.disk.saved (h.path ▸ hsaved), h.path, h.changes, h.tasks⟩

theorem document {doc : Document} (h : w.Spares files keep v)
    (hdoc : w.store.document.Keeps keep doc) :
    w.Spares files keep { v with store := { v.store with document := doc } } :=
  ⟨h.disk, h.path, h.changes, hdoc⟩

end Workspace.Spares

variable {files : List Path} {keep : Json → Bool} {w v : Workspace} {key : Text}

namespace Tasks

end Tasks

namespace Reconciler

variable {reconciler : Reconciler} {roots : List Location}

variable {anchor : Anchor}
  (hkeep : ∀ item, keep item = true → Anchor.ofReference? item ≠ some anchor)
include hkeep

end Reconciler

namespace Reconciler

variable {reconciler : Reconciler} {roots : List Location} {tree tree' : FileTree} {a : Anchor}

end Reconciler

namespace ScanJob

variable {job : ScanJob} {file : Text} {path : Path} {report : ScanReport} {w' : Workspace}

section Outside

end Outside

end ScanJob

end TodoTracker
