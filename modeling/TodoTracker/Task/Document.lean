import TodoTracker.Failure
import TodoTracker.Json.Printer
import TodoTracker.Task.Anchor
import TodoTracker.Task.Map

/-!
# The task document

A document has its tasks and a header with the number for the next key. Both are JSON values that
others may have written, so a field that is needed can have the wrong form. Numbers are only ever
taken once: minting a key moves the number in the header on, whatever becomes of the task. The
anchors of a task are those of its references that are to code.
-/

set_option autoImplicit false

namespace TodoTracker

structure Document where
  /-- The fields in front of the tasks. -/
  front : Fields Json
  tasks : TaskMap
  /-- The fields behind the tasks. -/
  back : Fields Json

namespace Document

def headerName : Text := "meta".toList
def tasksName : Text := "tasks".toList
def numberName : Text := "next_id".toList
def referencesName : Text := "references".toList
def modifiedName : Text := "modified".toList

def toJson (doc : Document) : Json :=
  .object (doc.front ++ (tasksName, doc.tasks.toJson) :: doc.back)

/-- A task document is an object with an object of tasks. -/
def ofJson? : Json → Option Document
  | .object fields =>
    match Fields.get? fields tasksName with
    | some (.object tasks) =>
      let front := fields.takeWhile fun field => field.1 != tasksName
      some ⟨front, .ofFields tasks, fields.drop (front.length + 1)⟩
    | _ => none
  | _ => none

def make (project now : Text) : Document where
  front := [(headerName, .object [("version".toList, .int 1), ("project".toList, .str project),
    (numberName, .int 1), ("updated_at".toList, .str now)])]
  tasks := .empty
  back := []

/-- The header, which a document without one gets. -/
def header (doc : Document) : Json :=
  (Fields.get? (doc.front ++ doc.back) headerName).getD (.object [])

def setHeader (doc : Document) (header : Fields Json) : Document :=
  if Fields.has doc.front headerName then
    { doc with front := Fields.set doc.front headerName (.object header) }
  else { doc with back := Fields.set doc.back headerName (.object header) }

/-- The number that a value of the header gives. -/
def readNumber : Json → Except DocumentFlaw Int
  | .int n => .ok n
  | .bool b => .ok (if b then 1 else 0)
  | .decimal .undefined => .error .undefinedNumber
  | .decimal (.infinite _) => .error .infiniteNumber
  | .decimal (.finite negative significand exponent) =>
    .ok (Decimal.wholePart negative significand exponent)
  | .str t => match Text.readInt? t with
    | some n => .ok n
    | none => .error (.notInteger t)
  | value => .error (.notNumber value.kind)

def keyOf (project : Text) (number : Int) : Text := project ++ '-' :: Text.ofInt number

/-- The first number from `number` on whose key is not in `keys`. A key that is met is not met
again, so the search ends. -/
def firstFree (project : Text) (keys : List Text) (number : Int) : Int :=
  if h : keyOf project number ∈ keys then
    firstFree project (keys.erase (keyOf project number)) (number + 1)
  else number
termination_by keys.length
decreasing_by
  rw [List.length_erase_of_mem h]
  have := List.length_pos_of_mem h
  omega

/-- Take the key for a new task. -/
def mint (doc : Document) (project : Text) : Except DocumentFlaw (Text × Document) :=
  match doc.header with
  | .object header => do
    let next ← readNumber ((Fields.get? header numberName).getD (.int 1))
    let number := firstFree project doc.tasks.keys next
    return (keyOf project number,
      doc.setHeader (Fields.set header numberName (.int (number + 1))))
  | value => .error (.noFields value.kind "get".toList)

/-- Note in the header when the document was last saved. -/
def stamp (doc : Document) (now : Text) : Except DocumentFlaw Document :=
  match doc.header with
  | .object header => .ok (doc.setHeader (Fields.set header "updated_at".toList (.str now)))
  | .list _ => .error .textIndex
  | value => .error (.noItems value.kind)

/-- A task with the fields that every task starts with, and further ones. -/
def newTask (key now : Text) (further : Fields Json) : Json :=
  .object (Fields.merge [("key".toList, .str key), ("status".toList, Json.text "todo"),
    ("created".toList, .str now), (modifiedName, .str now), (referencesName, .list [])] further)

def put (doc : Document) (key : Text) (task : Json) : Document :=
  { doc with tasks := doc.tasks.insert key task }

def erase (doc : Document) (key : Text) : Document := { doc with tasks := doc.tasks.erase key }

/-- The references of a task as far as they are a list; what cannot be gone through is an error. -/
def references : Json → Except DocumentFlaw (List Json)
  | .object fields =>
    match Fields.get? fields referencesName with
    | none => .ok []
    | some (.list items) => .ok items
    | some value =>
      match value with
      | .str _ | .object _ => .ok []
      | _ => if value.isPresent then .error (.notIterable value.kind) else .ok []
  | value => .error (.noFields value.kind "get".toList)

/-- The code anchors of a key, in order; a key without a task has none. -/
def anchors (doc : Document) (key : Text) : Except DocumentFlaw (List Anchor) :=
  match doc.tasks.task? key with
  | none => .ok []
  | some task => do return (← references task).filterMap Anchor.ofReference?

/-- The keys of the tasks that have an anchor, sorted. -/
def anchoredKeys (doc : Document) : Except DocumentFlaw (List Text) := do
  let keys ← doc.tasks.entries.filterM fun (_, task) => do
    return (← references task).any fun item => (Anchor.ofReference? item).isSome
  return Text.sort (keys.map (·.1))

/-- Whether a reference is to this very code. -/
def isCode (code : Text) (reference : Json) : Bool :=
  match reference.field? "code" with
  | some (.str t) => t == code
  | _ => false

/-- The references that an anchor can be added to. -/
def openReferences (fields : Fields Json) : Except DocumentFlaw (List Json) :=
  match Fields.get? fields referencesName with
  | none => .ok []
  | some (.list items) => .ok items
  | some value =>
    match value with
    | .str _ | .object _ => .error (.noFields value.kind "append".toList)
    | _ => .error (.notIterable value.kind)

/-- A task with other references, modified now. -/
def withReferences (fields : Fields Json) (references : List Json) (now : Text) : Json :=
  .object (Fields.set (Fields.set fields referencesName (.list references)) modifiedName
    (.str now))

/-- Record an anchor of a task, unless it is recorded already. -/
def addAnchor (doc : Document) (key : Text) (anchor : Anchor) (now : Text) :
    Except Failure (Option Document) :=
  match doc.tasks.task? key with
  | none => .error (.store (.notFound key))
  | some (.object fields) => do
    let references ← (openReferences fields).mapError .document
    if references.any (isCode anchor.code) then return none
    return some (doc.put key
      (withReferences fields (references ++ [anchor.toReference]) now))
  | some value => .error (.document (.noFields value.kind "setdefault".toList))

/-- Remove every reference of a task that writes the anchor, if there is one. -/
def removeAnchor (doc : Document) (key : Text) (anchor : Anchor) (now : Text) :
    Except DocumentFlaw (Option Document) :=
  match doc.tasks.task? key with
  | none => .ok none
  | some task => do
    let references ← references task
    let kept := references.filter fun item => Anchor.ofReference? item != some anchor
    if kept.length = references.length then return none
    return some (doc.put key (withReferences ((task.asObject?).getD []) kept now))

/-- What a value is made of, if it is made of parts. -/
def parts? : Json → Option (List Json)
  | .list items => some items
  | .str t => some (t.map fun c => .str [c])
  | .object fields => some (fields.map fun field => .str field.1)
  | _ => none

/-- The name of a field that a value gives. -/
def readName : Json → Except DocumentFlaw Text
  | .str t => .ok t
  | .list _ => .error (.notName "list".toList)
  | .object _ => .error (.notName "dict".toList)
  | value => .ok value.printLine

/-- The field that the member of a list writes as a pair of a name and a value. -/
def readPair (index : Nat) (member : Json) : Except DocumentFlaw (Text × Json) :=
  match parts? member with
  | some [name, value] => do return (← readName name, value)
  | some parts => .error (.notPair index parts.length)
  | none => .error (.notSequence index)

/-- The fields of a task as they are shown. A list of pairs is as good as an object. -/
def fieldsOf (task : Json) : Except DocumentFlaw (Fields Json) :=
  match task, parts? task with
  | .object fields, _ => .ok fields
  | _, some parts => do
    return Fields.ofList (← parts.zipIdx.mapM fun (member, index) => readPair index member)
  | _, none => .error (.notIterable task.kind)

end Document

end TodoTracker
