import TodoTracker.Failure
import TodoTracker.Files.Resolve

/-!
# Working with files

Asking about a path, reading, and writing. A file is never changed in place: the new text goes to
a temporary sibling, which then takes the place of the file; through a link the file that it leads
to is replaced. An operation that fails leaves the files as they were.
-/

set_option autoImplicit false

namespace TodoTracker

namespace Path

/-- No path of the system has a zero character in it. -/
def hasNull (path : Path) : Bool := path.names.any (·.contains (Char.ofNat 0))

end Path

namespace FileTree

/-- The entry that a path leads to, if there is one. -/
def entry? (tree : FileTree) (path : Path) : Except Failure (Option Entry) :=
  if path.hasNull then .ok none
  else match tree.find path with
    | .ok (_, entry) => .ok (some entry)
    | .error flaw =>
      if flaw.meansAbsent then .ok none else .error (.file ⟨flaw, path.text, none⟩)

def existsAt (tree : FileTree) (path : Path) : Except Failure Bool :=
  Option.isSome <$> tree.entry? path

def isFile (tree : FileTree) (path : Path) : Except Failure Bool := do
  match ← tree.entry? path with
  | some (.file _) => return true
  | _ => return false

def isDirectory (tree : FileTree) (path : Path) : Except Failure Bool :=
  (· == some .directory) <$> tree.entry? path

/-- The location of a path, links replaced as far as they lead somewhere. -/
def realPath (tree : FileTree) (path : Path) : Except Failure Location :=
  if path.hasNull then .error .nullByte else .ok (tree.real path)

/-- The location of a path; links that lead in a circle are refused. -/
def resolve (tree : FileTree) (path : Path) : Except Failure Location := do
  let location ← tree.realPath path
  match tree.find (.ofLocation location) with
  | .error .linkLoop => throw (.linkLoop location.text)
  | _ => return location

/-- How a file is written in anchors and messages: relative to the repository if it is inside. -/
def displayPath (tree : FileTree) (path : Path) (repo : Location) : Except Failure Text :=
  (·.relativeText repo) <$> tree.resolve path

def readBytes (tree : FileTree) (path : Path) : Except Failure Bytes :=
  if path.hasNull then .error .nullByte
  else match tree.find path with
    | .ok (_, .file bytes) => .ok bytes
    | .ok _ => .error (.file ⟨.isDirectory, path.text, none⟩)
    | .error flaw => .error (.file ⟨flaw, path.text, none⟩)

/-- The source text of a file. -/
def readText (tree : FileTree) (path : Path) : Except Failure Text := do
  match readSource (← tree.readBytes path) with
  | .ok text => return text
  | .error flaw => throw (.source path.text flaw)

/-- The names in a directory, each with whether it leads to a directory. -/
def list (tree : FileTree) (path : Path) : Except FileError (List (Text × Bool)) :=
  match tree.find path with
  | .ok (location, .directory) =>
    .ok ((tree.children location).map fun (name, _) =>
      (name, match tree.find (path.join ⟨0, [name]⟩) with
        | .ok (_, .directory) => true
        | _ => false))
  | .ok _ => .error ⟨.notDirectory, path.text, none⟩
  | .error flaw => .error ⟨flaw, path.text, none⟩

/-- The location of the directory that a path leads to. -/
def directoryAt (tree : FileTree) (path : Path) : Except FileFlaw Location :=
  match tree.find path with
  | .ok (location, .directory) => .ok location
  | .ok _ => .error .notDirectory
  | .error flaw => .error flaw

/-- Make one directory in a directory that is there. -/
def makeDirectory (tree : FileTree) (path : Path) : Except FileFlaw FileTree := do
  let parent ← tree.directoryAt path.parent
  if path.names.isEmpty || path.name = upName then throw .alreadyExists
  if nameLimit < (Utf8.encode path.name).length then throw .nameTooLong
  let location := parent ++ [path.name]
  match tree.lookup? location with
  | some _ => throw .alreadyExists
  | none => return tree.insert location .directory

/-- What a directory that cannot be made means: nothing if it is there. -/
def settle (tree : FileTree) (path : Path) (flaw : FileFlaw) : Except FileError FileTree :=
  match tree.find path with
  | .ok (_, .directory) => .ok tree
  | _ => .error ⟨flaw, path.text, none⟩

/-- Make the directory whose names are `names` in reverse, and those above it. -/
def makeDirectoriesFrom (tree : FileTree) (slashes : Nat) :
    List Text → Except FileError FileTree
  | [] => tree.settle ⟨slashes, []⟩ .alreadyExists
  | name :: above =>
    let path : Path := ⟨slashes, (name :: above).reverse⟩
    match tree.makeDirectory path with
    | .ok tree => .ok tree
    | .error .notFound => do
      let tree ← tree.makeDirectoriesFrom slashes above
      match tree.makeDirectory path with
      | .ok tree => .ok tree
      | .error .notFound => .error ⟨.notFound, path.text, none⟩
      | .error flaw => tree.settle path flaw
    | .error flaw => tree.settle path flaw

/-- Make a directory and those above it as far as they are missing. -/
def makeDirectories (tree : FileTree) (path : Path) : Except FileError FileTree :=
  tree.makeDirectoriesFrom path.slashes path.names.reverse

/-- The name of the temporary file that takes the place of a file. -/
def temporaryName (name : Text) : Text := '.' :: name ++ ".TEMP.tmp".toList

/-- How many bytes longer the name of a temporary file is than that of the file. -/
def temporaryExcess : Nat := 14

/-- Replace the file at a location by one with other bytes. -/
def replaceFile (tree : FileTree) (location : Location) (bytes : Bytes) :
    Except FileError FileTree := do
  let name := location.getLast?.getD []
  let temporary := Location.text (location.dropLast ++ [temporaryName name])
  match tree.directoryAt (.ofLocation location.dropLast) with
  | .error flaw => throw ⟨flaw, temporary, none⟩
  | .ok parent =>
    if nameLimit < (Utf8.encode name).length + temporaryExcess then
      throw ⟨.nameTooLong, temporary, none⟩
    let place := parent ++ [name]
    match tree.lookup? place with
    | some .directory => throw ⟨.isDirectory, temporary, some location.text⟩
    | _ => return tree.insert place (.file bytes)

end FileTree

/-- A file tree, with the faults that writing meets: the flaw of the write with each number. -/
structure Disk where
  tree : FileTree
  writes : Nat
  faults : Nat → Option FileFlaw

namespace Disk

def ofTree (tree : FileTree) : Disk := ⟨tree, 0, fun _ => none⟩

/-- Replace the text of the file that a path leads to. -/
def write (disk : Disk) (path : Path) (text : Text) : Except Failure Unit × Disk :=
  match disk.tree.realPath path with
  | .error e => (.error e, disk)
  | .ok location =>
    let counted := { disk with writes := disk.writes + 1 }
    match disk.faults disk.writes with
    | some flaw =>
      let name := location.getLast?.getD []
      let temporary := Location.text (location.dropLast ++ [FileTree.temporaryName name])
      (.error (.file ⟨flaw, temporary, none⟩), counted)
    | none =>
      match disk.tree.replaceFile location (Utf8.encode text) with
      | .error e => (.error (.file e), counted)
      | .ok tree => (.ok (), { counted with tree })

/-- Make the directories of a path. -/
def makeDirectories (disk : Disk) (path : Path) : Except Failure Unit × Disk :=
  if path.hasNull then (.error .nullByte, disk)
  else match disk.tree.makeDirectories path with
    | .error e => (.error (.file e), disk)
    | .ok tree => (.ok (), { disk with tree })

end Disk

end TodoTracker
