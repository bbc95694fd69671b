import TodoTracker.Files.Access

/-!
# Changes by others

Other programs write, make, remove and move files while this one works. A change names a path and
what is to be there afterwards, or that nothing is to be there.
-/

set_option autoImplicit false

namespace TodoTracker

structure Change where
  path : Path
  /-- What is put at the path; `none` removes what is there. -/
  entry : Option Entry
  deriving DecidableEq, Repr

namespace FileTree

/-- Make the directories of a path if that is possible. -/
def ensureDirectories (tree : FileTree) (path : Path) : Except Failure FileTree :=
  (tree.makeDirectories path).mapError .file

/-- Where a path's last name is, in the directory that the names before it lead to. -/
def placeOf (tree : FileTree) (path : Path) : Except Failure Location :=
  match tree.directoryAt path.parent with
  | .ok parent => .ok (parent ++ [path.name])
  | .error flaw => .error (.file ⟨flaw, path.text, none⟩)

/-- Where a file that is written through a path ends up: where the links at the path lead. -/
def writePlace (tree : FileTree) (path : Path) : Except Failure Location := do
  let place ← tree.placeOf path
  match tree.lookup? place with
  | some (.link _) => return tree.real path
  | some .directory => throw (.file ⟨.isDirectory, path.text, none⟩)
  | _ => return place

def apply (tree : FileTree) (change : Change) : Except Failure FileTree := do
  match change.entry with
  | none =>
    match tree.placeOf change.path with
    | .ok place => return tree.erase place
    | .error _ => return tree
  | some .directory => tree.ensureDirectories change.path
  | some (.link target) =>
    let tree ← tree.ensureDirectories change.path.parent
    let place ← tree.placeOf change.path
    if tree.lookup? place = some .directory then
      throw (.file ⟨.isDirectory, change.path.text, none⟩)
    return tree.insert place (.link target)
  | some (.file bytes) =>
    let tree ← tree.ensureDirectories change.path.parent
    return tree.insert (← tree.writePlace change.path) (.file bytes)

/-- Apply changes one after the other; the tree that the changes before a failure led to is kept. -/
def applyAll (tree : FileTree) : List Change → Except Failure Unit × FileTree
  | [] => (.ok (), tree)
  | change :: rest =>
    match tree.apply change with
    | .ok tree => tree.applyAll rest
    | .error e => (.error e, tree)

/-- Move what is at a path, with everything below it, to another path. -/
def move (tree : FileTree) (source target : Path) : Except Failure FileTree := do
  let tree ← tree.ensureDirectories target.parent
  let old ← tree.placeOf source
  let new ← tree.placeOf target
  let moved := tree.entries.filter (Location.within ·.1 old)
  if moved.isEmpty then throw (.file ⟨.notFound, source.text, some target.text⟩)
  let rest := (tree.prune old).prune new
  return moved.foldl (fun acc entry => acc.insert (new ++ entry.1.drop old.length) entry.2) rest

end FileTree

end TodoTracker
