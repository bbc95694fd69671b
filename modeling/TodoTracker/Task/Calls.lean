import TodoTracker.Json.Printer
import TodoTracker.Workspace

/-!
# Calls of the task store

What the program asks of its task store: to create a task, whether a key has a task, and to add,
remove and list anchors. Every change is saved at once. A change stays in the document when saving
it fails, except that a task that could not be saved is taken back; the number that its key took
is not used again.
-/

set_option autoImplicit false

namespace TodoTracker.Tasks

/-- The way into a call that may be refused. -/
def enter (call : StoreCall) : Work Unit := do
  let w ← get
  set { w with calls := w.calls + 1 }
  match w.refusals w.calls call with
  | none => return
  | some text => throw (.store (.refused text))

def document : Work Document := do return (← get).store.document

def setDocument (document : Document) : Work Unit :=
  modify fun w => { w with store := { w.store with document } }

/-- An answer of the document. -/
def ask {α : Type} (answer : Except DocumentFlaw α) : Work α :=
  Work.ofExcept (answer.mapError .document)

/-- Report that a file operation failed as a failure of the store to write its file. -/
def asWriteError {α : Type} (path : Path) (work : Work α) : Work α :=
  tryCatch work fun failure => match failure with
    | .file error => throw (.store (.write path.text error))
    | failure => throw failure

/-- Save the document in the file of the store, if it has one. -/
def save : Work Unit := do
  match (← get).store.path with
  | none => return
  | some path =>
    asWriteError path do
      Work.onDisk (·.makeDirectories path.parent)
      setDocument (← ask ((← document).stamp (← get).now))
      let text := (← document).toJson.print ++ ['\n']
      Work.onDisk (·.write path text)

/-- What others do once a task has been created. -/
def interfere : Work Unit := do
  let changes := (← get).afterCreate
  Work.onDisk fun disk =>
    let (outcome, tree) := disk.tree.applyAll changes
    (outcome, { disk with tree })

/-- Create a task with the given fields, blank ones apart; the answer is its key. -/
def create (fields : Fields Json) : Work Text := do
  enter .create
  let w ← get
  let (key, minted) ← ask (w.store.document.mint w.store.project)
  let given := fields.filter fun field => !field.2.isBlank
  setDocument (minted.put key (Document.newTask key w.now given))
  match ← Work.attempt save with
  | .error error => do
    setDocument ((← document).erase key)
    throw (.store error)
  | .ok () => do
    interfere
    return key

/-- What is said about a task when it is recorded, and is no field. -/
def reservedNames : List Text := ["self", "key"].map String.toList

/-- Record a task under a key, in place of the one that has it; the answer is the task. Its key is
not among the fields. -/
def put (key : Text) (fields : Fields Json) : Work Json := do
  match fields.find? fun field => reservedNames.contains field.1 with
  | some (name, _) => throw (.document (.repeatedField name))
  | none => pure ()
  let task := Document.newTask key (← get).now fields
  setDocument ((← document).put key task)
  save
  return task

/-- Whether there was a task to delete. -/
def delete (key : Text) : Work Bool := do
  let doc ← document
  let found := doc.tasks.task? key
  setDocument (doc.erase key)
  match found with
  | none => return false
  | some _ => do
    save
    return true

def has (key : Text) : Work Bool := do
  enter .lookUp
  return (← document).tasks.has key

def get? (key : Text) : Work (Fields Json) := do
  match (← document).tasks.task? key with
  | none => throw (.store (.notFound key))
  | some task => ask (Document.fieldsOf task)

/-- Record an anchor of a task, unless it is recorded already. -/
def append (key : Text) (anchor : Anchor) : Work Unit := do
  enter .append
  match ← Work.ofExcept ((← document).addAnchor key anchor (← get).now) with
  | none => return
  | some doc => do
    setDocument doc
    save

/-- Remove an anchor of a task; the answer is whether it was recorded. -/
def remove (key : Text) (anchor : Anchor) : Work Bool := do
  enter .remove
  match ← ask ((← document).removeAnchor key anchor (← get).now) with
  | none => return false
  | some doc => do
    setDocument doc
    save
    return true

def anchors (key : Text) : Work (List Anchor) := do ask ((← document).anchors key)

/-- The keys of the tasks that have anchors, sorted. -/
def anchored : Work (List Text) := do ask (← document).anchoredKeys

end TodoTracker.Tasks
