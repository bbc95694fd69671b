import TodoTracker.Settings.Read
import TodoTracker.Task.Load

/-!
# Settings of a repository

The settings are in the first of two files that exists. A file that cannot be read, or has no JSON
object in it, gives a warning and the settings that hold without a file.
-/

set_option autoImplicit false

namespace TodoTracker.Settings

def fileNames : List Text := [".lotar.json", "lotar.json"].map String.toList

/-- The object in a settings file, or the warning about it. -/
def readFile (tree : FileTree) (path : Path) (name : Text) :
    Except Failure (Fields Json × List Text) :=
  let failed := fun (reason : Text) =>
    ([], ["Failed to parse ".toList ++ name ++ ": ".toList ++ reason])
  match StoredTasks.readDocument tree path with
  | .error (.decode e) => .error (.encoding e)
  | .error flaw => .ok (failed flaw.message)
  | .ok text =>
    match Json.parse text with
    | .error e => .ok (failed (e.message text))
    | .ok (.object fields) => .ok (fields, [])
    | .ok _ => .ok ([], ["Invalid ".toList ++ name ++ ": expected a JSON object".toList])

/-- The object in the first settings file there is, with its name and warnings. -/
def findFile (tree : FileTree) (repo : Path) :
    List Text → Except Failure (Fields Json × Option Text × List Text)
  | [] => .ok ([], none, [])
  | name :: rest => do
    let path := repo.join ⟨0, [name]⟩
    if !(← tree.existsAt path) then findFile tree repo rest
    else do
      let (fields, warnings) ← readFile tree path name
      return (fields, some name, warnings)

/-- The settings of a repository, with warnings. -/
def load (tree : FileTree) (repo : Path) : Except Failure (Settings × List Text) := do
  let (doc, source, warnings) ← findFile tree repo fileNames
  let location ← tree.resolve repo
  let (settings, further) ← ofDocument doc source (Path.ofLocation location).name
  return (settings, warnings ++ further)

end TodoTracker.Settings
