import TodoTracker.Proofs.Workspace.Guarded
import TodoTracker.Git.Query
import TodoTracker.Scan.Job

/-!
# Failures that are not those of the store

Files, ignore rules, status reports and settings fail for reasons of their own: none of them reports
a failure of the task store.
-/

set_option autoImplicit false

namespace TodoTracker

/-- A failure that the task store does not report. -/
def Failure.IsForeign (e : Failure) : Prop := e.isStore = false

/-- An answer that is no failure of the task store. -/
abbrev Foreign {α : Type} (answer : Except Failure α) : Prop := FailsOnly Failure.IsForeign answer

open FailsOnly

namespace FileTree

variable (tree : FileTree) (path : Path)

theorem foreign_realPath : Foreign (tree.realPath path) :=
  .ite (fun _ => .error rfl) fun _ => .ok _

end FileTree

theorem Disk.foreign_write (disk : Disk) (path : Path) (text : Text) :
    Foreign (disk.write path text).1 := by
  rw [write]
  split
  · rename_i e h
    exact .error (disk.tree.foreign_realPath path e h)
  · dsimp only
    split
    · exact .error rfl
    · split
      · exact .error rfl
      · exact .ok _

theorem Disk.foreign_makeDirectories (disk : Disk) (path : Path) :
    Foreign (disk.makeDirectories path).1 := by
  rw [makeDirectories]
  split
  · exact .error rfl
  · split
    · exact .error rfl
    · exact .ok _

/-- Writing to a path that can be named fails on the file only. -/
theorem Disk.write_failsOnly (disk : Disk) {path : Path} (h : path.hasNull = false) (text : Text) :
    FailsOnly (fun e => ∃ error, e = .file error) (disk.write path text).1 := by
  rw [write, FileTree.realPath, h]
  dsimp only
  split
  · rename_i heq
    cases heq
  · split
    · exact .error ⟨_, rfl⟩
    · split
      · exact .error ⟨_, rfl⟩
      · exact .ok _

namespace IgnoreLevel

variable (tree : FileTree) (base : Path)

end IgnoreLevel

namespace IgnoreScope

variable (tree : FileTree)

end IgnoreScope

namespace Walker

variable (tree : FileTree) (request : WalkRequest) (walker : Walker) (path : Path)

end Walker

namespace Git

variable (tree : FileTree)

end Git

namespace ScanJob

variable (tree : FileTree) (repo : Location)

end ScanJob

end TodoTracker
