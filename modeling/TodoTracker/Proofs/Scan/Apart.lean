import TodoTracker.Proofs.Files.Rewrite
import TodoTracker.Proofs.Task.Calls

/-!
# Paths apart from the task file

A scan changes the disk in two ways: it saves the tasks, and it writes files that it has scanned. A
path is apart from the task file when no save, at any time of the scan, changes what is found there.
What is found at such a path follows from the files that were written, whatever was saved between.
-/

set_option autoImplicit false

namespace TodoTracker

/-- The disks that a scan of files comes to. -/
inductive Disk.ScannedFrom (store : Option Path) (files : List Path) (disk : Disk) : Disk → Prop
  | start : ScannedFrom store files disk disk
  | saved {d d' : Disk} (h : ScannedFrom store files disk d) (hsaved : SavedFrom store d d') :
      ScannedFrom store files disk d'
  | written {d d' : Disk} {path : Path} {text : Text} (h : ScannedFrom store files disk d)
      (hpath : path ∈ files) (hwrite : d.write path text = (.ok (), d')) :
      ScannedFrom store files disk d'

/-- Two trees have the same at a path. -/
structure FileTree.SameAt (tree tree' : FileTree) (path : Path) : Prop where
  find : tree'.find path = tree.find path
  resolve : tree'.resolve path = tree.resolve path

namespace FileTree

variable {tree tree' tree'' : FileTree} {path : Path} {location : Location} {entry : Entry}
  {changes changes' : List (Location × Text)}

namespace SameAt

theorem refl (tree : FileTree) (path : Path) : tree.SameAt tree path := ⟨rfl, rfl⟩

theorem symm (h : tree.SameAt tree' path) : tree'.SameAt tree path :=
  ⟨h.find.symm, h.resolve.symm⟩

theorem trans (h : tree.SameAt tree' path) (h' : tree'.SameAt tree'' path) :
    tree.SameAt tree'' path :=
  ⟨h'.find.trans h.find, h'.resolve.trans h.resolve⟩

theorem agreeAt (h : tree.SameAt tree' path) : tree.AgreeAt tree' path := by
  refine ⟨h.resolve, ?_, ?_⟩
  · rw [existsAt, existsAt, entry?, entry?, h.find]
  · rw [readText, readText, readBytes, readBytes, h.find]

end SameAt

/-- What a path leads to after the file at a location was given another text. -/
def overwritten (change : Location × Text) (found : Location × Entry) : Location × Entry :=
  (found.1, if found.1 = change.1 then .file (Utf8.encode change.2) else found.2)

/-- What a path leads to after files were given other texts. -/
def afterChanges (changes : List (Location × Text)) (found : Location × Entry) :
    Location × Entry :=
  changes.foldl (fun found change => overwritten change found) found

theorem afterChanges_append (changes changes' : List (Location × Text))
    (found : Location × Entry) :
    afterChanges (changes ++ changes') found = afterChanges changes' (afterChanges changes found) :=
  List.foldl_append

theorem afterChanges_of_ne (h : ∀ change ∈ changes, change.1 ≠ location) :
    afterChanges changes (location, entry) = (location, entry) := by
  induction changes with
  | nil => rfl
  | cons change changes ih =>
    have hne : location ≠ change.1 := (h change List.mem_cons_self).symm
    have hfirst : overwritten change (location, entry) = (location, entry) := by
      rw [overwritten, if_neg hne]
    rw [afterChanges, List.foldl_cons, hfirst]
    exact ih fun c hc => h c (List.mem_cons_of_mem _ hc)

/-- Changes of different files can be made in any order. -/
theorem afterChanges_of_perm (h : changes.Perm changes')
    (hone : ∀ c ∈ changes, ∀ c' ∈ changes, c.1 = c'.1 → c = c') (found : Location × Entry) :
    afterChanges changes found = afterChanges changes' found := by
  refine h.foldl_eq' (fun c hc c' hc' z => ?_) found
  by_cases hsame : c.1 = c'.1
  · rw [hone c hc c' hc' hsame]
  · rw [overwritten, overwritten, overwritten, overwritten]
    by_cases hz : z.1 = c.1
    · simp [hz, hsame]
    · simp [hz]

end FileTree

namespace Workspace

variable {w v u : Workspace} {files : List Path} {path other : Path}

/-- Saving the tasks does not change what is found at a path, at any time while files are
scanned. -/
def Apart (w : Workspace) (files : List Path) (path : Path) : Prop :=
  ∀ disk disk', Disk.ScannedFrom w.store.path files w.disk disk →
    Disk.SavedFrom w.store.path disk disk' → disk.tree.SameAt disk'.tree path

theorem apart_of_no_file (h : w.store.path = none) (files : List Path) (path : Path) :
    w.Apart files path := by
  intro disk disk' _ hsaved
  rw [h] at hsaved
  cases hsaved with
  | start => exact .refl _ _
  | directories hfile => cases hfile
  | write hfile => cases hfile

theorem Apart.saved (h : w.Apart files path) (hpath : v.store.path = w.store.path)
    (hdisk : Disk.ScannedFrom w.store.path files w.disk v.disk) (hsaved : v.Saved u) :
    v.disk.tree.SameAt u.disk.tree path :=
  h v.disk u.disk hdisk (hpath ▸ hsaved.disk)

theorem Apart.undisturbed (h : w.Apart files path) (hpath : v.store.path = w.store.path)
    (hdisk : Disk.ScannedFrom w.store.path files w.disk v.disk) : v.Undisturbed path :=
  fun disk hsaved => (h v.disk disk hdisk (hpath ▸ hsaved)).agreeAt

end Workspace

namespace FileTree

variable {tree : FileTree} {path other : Path} {location : Location}

/-- A file that can be read has the name of every path that leads to it. -/
theorem displayPath_of_find {repo : Location} {name text : Text} {entry entry' : Entry}
    (hdots : hereName ∉ path.names) (hdots' : hereName ∉ other.names)
    (hfind : tree.find path = .ok (location, entry))
    (hfind' : tree.find other = .ok (location, entry')) (htext : tree.readText other = .ok text)
    (h : tree.displayPath path repo = .ok name) : tree.displayPath other repo = .ok name := by
  have hreal : tree.realPath other = .ok location := by
    rw [realPath, hasNull_of_readText htext, real_of_find hdots' hfind']
    rfl
  have hresolve : tree.resolve path = tree.resolve other := by
    rw [displayPath, resolve, realPath, real_of_find hdots hfind] at h
    rw [resolve, resolve, hreal, realPath, real_of_find hdots hfind]
    split at h
    · cases h
    · rename_i hnull
      rw [if_neg hnull]
  rw [displayPath, ← hresolve]
  exact h

end FileTree

/-- After a file was written, every path leads where it did, and the file has its new text. -/
theorem Disk.sameAt_of_write {disk disk' : Disk} {path : Path} {location : Location}
    {bytes : Bytes} {text : Text} (hdots : FileTree.hereName ∉ path.names)
    (hfind : disk.tree.find path = .ok (location, .file bytes))
    (h : disk.write path text = (.ok (), disk')) (other : Path) :
    disk'.tree.find other =
        (disk.tree.find other).map (FileTree.overwritten (location, text)) ∧
      disk'.tree.resolve other = disk.tree.resolve other := by
  have hfile := FileTree.lookup?_of_find hfind
  rw [tree_write hdots hfind h]
  exact ⟨FileTree.find_insert hfile _ other, (FileTree.sameShape_insert hfile _).resolve other⟩

end TodoTracker
