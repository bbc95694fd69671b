import TodoTracker.Edit.Splice
import TodoTracker.Failure
import TodoTracker.Text.Line

/-!
# Queued edits

The edits of a file are queued by line, each line with its content when it was looked at, and are
then made all at once. A line whose content has changed in between is stale and is left alone, and
so are all other lines and all line endings.
-/

set_option autoImplicit false

namespace TodoTracker

/-- The edits of one line, and the content they were made for. -/
structure LineEdit where
  number : Int
  expected : Text
  splices : List Splice
  deriving DecidableEq, Repr

structure EditQueue where
  edits : List LineEdit
  deriving DecidableEq, Repr

namespace EditQueue

def empty : EditQueue := ⟨[]⟩

def size (queue : EditQueue) : Nat := queue.edits.length

def find? (queue : EditQueue) (number : Int) : Option LineEdit :=
  queue.edits.find? (·.number == number)

/-- Queue splices for a line of the file `file`. They join those that are queued for the line
already, provided that both were made for the same content. -/
def add (queue : EditQueue) (file : Text) (edit : LineEdit) : Except Failure EditQueue :=
  if edit.splices.isEmpty then .ok queue
  else match queue.find? edit.number with
    | none => .ok ⟨queue.edits ++ [edit]⟩
    | some known =>
      if known.expected ≠ edit.expected then .error (.twoContents file edit.number)
      else .ok ⟨queue.edits.map fun e =>
        if e.number == edit.number then { e with splices := e.splices ++ edit.splices } else e⟩

/-- The edits by line. -/
def ordered (queue : EditQueue) : List LineEdit :=
  queue.edits.mergeSort fun a b => a.number ≤ b.number

end EditQueue

/-- What a line becomes. -/
structure LineChange where
  number : Int
  before : Text
  after : Text
  deriving DecidableEq, Repr

namespace LineEdit

def change (edit : LineEdit) : Except Failure LineChange :=
  match Splice.applyAll edit.expected edit.splices with
  | .ok after => .ok ⟨edit.number, edit.expected, after⟩
  | .error overlap => .error (.overlap overlap)

/-- Where the line with a number is in a list of lines. The numbers below one count from the end,
zero being the last line; nothing is there in front of the first line. -/
def position (number : Int) (size : Nat) : Except Failure (Option Nat) :=
  if size < number then .ok none
  else if 1 ≤ number then .ok (some (number - 1).toNat)
  else if (1 - number).toNat ≤ size then .ok (some (size - (1 - number).toNat))
  else .error .lineRange

end LineEdit

namespace EditQueue

/-- What every queued line becomes, by line. -/
def preview (queue : EditQueue) : Except Failure (List LineChange) :=
  queue.ordered.mapM LineEdit.change

/-- The lines after edits, and which edits were applied and which were stale. -/
structure Result where
  lines : List Line
  applied : List Int
  stale : List Int
  deriving DecidableEq, Repr

/-- Make the edit of one line. -/
def Result.apply (result : Result) (edit : LineEdit) : Except Failure Result := do
  match ← LineEdit.position edit.number result.lines.length with
  | none => return { result with stale := result.stale ++ [edit.number] }
  | some i =>
    match result.lines[i]? with
    | none => return { result with stale := result.stale ++ [edit.number] }
    | some line =>
      if line.content ≠ edit.expected then
        return { result with stale := result.stale ++ [edit.number] }
      let change ← edit.change
      if change.after = edit.expected then return result
      return { result with
        lines := result.lines.set i { line with content := change.after }
        applied := result.applied ++ [edit.number] }

/-- Make all edits on the lines of a text. -/
def apply (queue : EditQueue) (text : Text) : Except Failure Result :=
  queue.ordered.foldlM Result.apply ⟨Line.split text, [], []⟩

end EditQueue

end TodoTracker
