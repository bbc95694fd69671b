import TodoTracker.Files.Access
import TodoTracker.Json.Parser
import TodoTracker.Task.Document
import TodoTracker.Text.Blank

/-!
# The task store

A store is a document, the project that its new keys are for, and the file where the document is
kept. A store without a file is kept in memory only. A file that does not exist yet is an empty
document; a file that does exist has to hold a task document.
-/

set_option autoImplicit false

namespace TodoTracker

structure StoredTasks where
  path : Option Path
  project : Text
  document : Document

namespace StoredTasks

/-- The text of a JSON file, where every kind of line end reads as a line feed. -/
def readDocument (tree : FileTree) (path : Path) : Except LoadFlaw Text :=
  match tree.readBytes path with
  | .error (.file e) => .error (.file e)
  | .error _ => .error .nullByte
  | .ok bytes =>
    match Utf8.decode bytes with
    | .ok text => .ok (Text.unifyNewlines text)
    | .error e => .error (.decode e)

/-- The document in a file, if there is such a file. -/
def loadDocument? (tree : FileTree) (path : Path) : Except LoadFlaw (Option Document) :=
  match tree.existsAt path with
  | .error (.file e) => .error (.file e)
  | .error _ => .error .nullByte
  | .ok false => .ok none
  | .ok true => do
    let text ← readDocument tree path
    match Json.parse text with
    | .error e => throw (.json text e)
    | .ok value =>
      match Document.ofJson? value with
      | some doc => return some doc
      | none => throw (.notDocument path.text)

/-- Open the store that is kept in a file, or a new one in memory. -/
def load (tree : FileTree) (path : Option Path) (project now : Text) :
    Except Failure StoredTasks :=
  match path with
  | none => .ok ⟨none, project, .make project now⟩
  | some file =>
    match loadDocument? tree file with
    | .error flaw => .error (.store (.load file.text flaw))
    | .ok found => .ok ⟨path, project, found.getD (.make project now)⟩

end StoredTasks

end TodoTracker
