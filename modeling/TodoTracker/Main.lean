import Std.Time.DateTime.Timestamp
import TodoTracker.Cli.Run
import TodoTracker.Text.Moment

/-!
# The program

The files that a command may look at are read into a file tree, the command runs on it, and what it
has changed is written. The status program is never started here: there are no renames, and a scan
of modified files looks at all of them.
-/

set_option autoImplicit false

namespace TodoTracker.Program

/-- A tree that is being read. -/
structure Loading where
  tree : FileTree
  /-- What has been looked at. -/
  seen : List Location

def name (location : Location) : String := String.ofList location.text

/-- Add the directories above a location. -/
def addAbove (tree : FileTree) (location : Location) : FileTree :=
  (List.range location.length).foldl (fun tree size =>
    match tree.lookup? (location.take size) with
    | none => tree.insert (location.take size) .directory
    | some _ => tree) tree

/-- Whether the contents of a directory can matter. -/
def isOpened (location : Location) : Bool :=
  match location.getLast? with
  | none => true
  | some last => last == ".tasks".toList || !Selection.excludedDirectories.contains last

/-- Read what is at a location and below it. Links are recorded with the place that they lead to,
which is read too. -/
partial def load (location : Location) (loading : Loading) : IO Loading := do
  if loading.seen.contains location then return loading
  let loading := { loading with seen := location :: loading.seen }
  let real ← try pure (some (← IO.FS.realPath (name location)).toString) catch _ => pure none
  match real with
  | none => return loading
  | some real =>
    let found := (Path.ofText real.toList).names
    let tree := addAbove loading.tree location
    if found ≠ location then
      load found { loading with tree := tree.insert location (.link real.toList) }
    else
      let path ← IO.FS.realPath (name location)
      match (← path.metadata).type with
      | .dir =>
        let tree := if location.isEmpty then tree else tree.insert location .directory
        let mut loading := { loading with tree }
        if isOpened location then
          for entry in ← path.readDir do
            loading ← load (location ++ [entry.fileName.toList]) loading
        return loading
      | .file =>
        let bytes ← IO.FS.readBinFile path
        return { loading with tree := tree.insert location (.file bytes.toList) }
      | _ => return loading

/-- Write an entry that a command has made. A file is put into a sibling that then takes its
place. -/
def write (location : Location) : Entry → IO Unit
  | .directory => IO.FS.createDirAll (name location)
  | .file bytes => do
    let sibling := name (location.dropLast ++
      [FileTree.temporaryName (location.getLast?.getD [])])
    IO.FS.writeBinFile sibling ⟨bytes.toArray⟩
    IO.FS.rename sibling (name location)
  | .link _ => return ()

/-- The places that the arguments name, as they are written. -/
def places (arguments : List Text) : List Text :=
  match Cli.readArguments arguments with
  | .error _ => []
  | .ok program =>
    let roots := match program.command with
      | some (.scan scan) => scan.paths
      | _ => []
    [program.repo, program.tasksFile] ++ roots

/-- Look only at whether the directories above a location are repositories. -/
def loadMarks (location : Location) (loading : Loading) : IO Loading :=
  (List.range location.length).foldlM (fun loading size =>
    load (location.take size ++ [Git.entryName]) loading) loading

def run (arguments : List Text) : IO UInt32 := do
  let cwd := (Path.ofText (← IO.currentDir).toString.toList).names
  let mut loading : Loading := ⟨.empty, []⟩
  for place in places arguments do
    let location := FileTree.flatten ((Path.ofLocation cwd).join (.ofText place)).names
    loading ← load location loading
    loading ← loadMarks (loading.tree.real (.ofLocation location)) loading
  let seconds := (← Std.Time.Timestamp.now).toSecondsSinceUnixEpoch.val.toNat
  let workspace : Workspace := {
    disk := .ofTree loading.tree
    store := ⟨none, [], .make [] []⟩
    now := Moment.text seconds
    git := none
    sightings := {}
    progress := []
    calls := 0
    refusals := fun _ _ => none
    afterCreate := [] }
  let (outcome, after) := (Cli.run cwd arguments).run workspace
  for (location, entry) in after.disk.tree.entries do
    if loading.tree.lookup? location ≠ some entry then write location entry
  for line in after.progress do
    IO.eprintln (String.ofList line)
  match outcome with
  | .error failure =>
    IO.eprintln (String.ofList failure.message)
    return 1
  | .ok result =>
    IO.print (String.ofList result.output)
    IO.eprint (String.ofList result.errors)
    return UInt32.ofNat result.status

end TodoTracker.Program

def main (arguments : List String) : IO UInt32 :=
  TodoTracker.Program.run (arguments.map String.toList)
