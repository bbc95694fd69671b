import TodoTracker.Json.Value
import TodoTracker.Text.Case

/-!
# Inline attributes

A marker may carry attributes in square brackets, such as `[priority=high, due=May]`. Only
top-level brackets with an equals sign in them are attributes; other brackets are text. The
attribute `ticket` names the task of the marker and is read on its own.
-/

set_option autoImplicit false

namespace TodoTracker

/-- A pair of brackets that belong together, with the text between them. -/
structure Block where
  start : Nat
  stop : Nat
  inner : Text
  deriving DecidableEq, Repr

namespace Block

/-- The blocks from column `pos` on. Inside of a block `depth` brackets are open, the first of them
at column `start`, and `inner` has the text since then in reverse. -/
def scanFrom (pos depth start : Nat) (inner : Text) : Text → List Block
  | [] => []
  | c :: rest =>
    if c = '[' then
      if depth = 0 then scanFrom (pos + 1) 1 pos [] rest
      else scanFrom (pos + 1) (depth + 1) start (c :: inner) rest
    else if c = ']' ∧ 0 < depth then
      if depth = 1 then ⟨start, pos + 1, inner.reverse⟩ :: scanFrom (pos + 1) 0 0 [] rest
      else scanFrom (pos + 1) (depth - 1) start (c :: inner) rest
    else scanFrom (pos + 1) depth start (if depth = 0 then inner else c :: inner) rest

/-- The top-level blocks of a text. A bracket that is never closed opens none. -/
def scan (t : Text) : List Block := scanFrom 0 0 0 [] t

def hasAttributes (block : Block) : Bool := block.inner.contains '='

/-- The blocks that hold attributes. -/
def attributeBlocks (t : Text) : List Block := (scan t).filter hasAttributes

end Block

/-- The attributes of a marker in the order in which their names first occur. -/
abbrev Attributes := Fields Text

namespace Attributes

/-- The name and the value that one entry of a block gives, if it gives one. -/
def readEntry? (entry : Text) : Option (Text × Text) :=
  match Text.cut? ['='] entry with
  | none => none
  | some (name, value) =>
    let name := Text.lower (Text.trim name)
    if name.isEmpty || name == "ticket".toList then none else some (name, Text.trim value)

/-- Add a value. A name that is given again keeps all its values, joined by commas. -/
def add (attributes : Attributes) (entry : Text × Text) : Attributes :=
  match Fields.get? attributes entry.1 with
  | some value => attributes.set entry.1 (value ++ ',' :: entry.2)
  | none => attributes.set entry.1 entry.2

/-- The attributes in the blocks of a text. -/
def parse (t : Text) : Attributes :=
  let entries := (Block.attributeBlocks t).flatMap fun block => Text.splitOn ',' block.inner
  (entries.filterMap readEntry?).foldl add []

/-- The text from column `pos` on without the blocks, which are in order. -/
def cutBlocks (t : Text) (pos : Nat) : List Block → Text
  | [] => t.drop pos
  | block :: blocks => Text.slice t pos block.start ++ cutBlocks t block.stop blocks

/-- A text without its attribute blocks. -/
def strip (t : Text) : Text := cutBlocks t 0 (Block.attributeBlocks t)

end Attributes

/-- The attribute that names a ticket, with the columns of the brackets and of the key. -/
structure TicketAttribute where
  start : Nat
  stop : Nat
  keyStart : Nat
  keyStop : Nat
  key : Text
  deriving DecidableEq, Repr

namespace TicketAttribute

/-- What follows `word` at the start of `t`, letters compared without regard to case. -/
def skipWord? : Text → Text → Option Text
  | [], t => some t
  | c :: word, d :: t =>
    if (Text.kin c).contains (Text.simpleLower d) then skipWord? word t else none
  | _ :: _, [] => none

def isKeyChar (c : Char) : Bool := c != ']' && c != ',' && !Text.isBlank c

/-- The attribute whose opening bracket is at column `pos`, right before `t`. -/
def read? (pos : Nat) (t : Text) : Option TicketAttribute := do
  let afterWord ← skipWord? "ticket".toList (t.dropWhile Text.isBlank)
  match afterWord.dropWhile Text.isBlank with
  | '=' :: rest =>
    let value := rest.dropWhile Text.isBlank
    let key := value.takeWhile isKeyChar
    let tail := (value.drop key.length).dropWhile Text.isBlank
    if key.isEmpty then none
    else match tail with
      | ']' :: after =>
        let keyStart := pos + 1 + (t.length - value.length)
        some ⟨pos, pos + 1 + (t.length - after.length), keyStart, keyStart + key.length, key⟩
      | _ => none
  | _ => none

def findFrom (pos : Nat) : Text → Option TicketAttribute
  | [] => none
  | c :: rest =>
    if c = '[' then
      match read? pos rest with
      | some found => some found
      | none => findFrom (pos + 1) rest
    else findFrom (pos + 1) rest

/-- The first ticket attribute in a text. -/
def find? (t : Text) : Option TicketAttribute := findFrom 0 t

end TicketAttribute

/-- Names that commas or blanks separate. -/
def readTags (t : Text) : List Text :=
  (Text.splitWhen (fun c => c == ',' || Text.isBlank c) t).filter (! ·.isEmpty)

/-- What a marker says about the task to be created for it. `hints` has the fields that take one
value, in the order in which they were first given. -/
structure Seed where
  title : Text
  hints : Fields Text
  tags : List Text
  custom : Fields Text
  deriving DecidableEq, Repr

namespace Seed

/-- The field of a task that an attribute sets. -/
def hintName? (name : Text) : Option Text :=
  [("assignee", "assignee"), ("assign", "assignee"), ("priority", "priority"),
    ("type", "task_type"), ("effort", "effort"), ("due", "due_date"),
    ("due_date", "due_date")].findSome? fun entry =>
      if String.toList entry.1 == name then some (String.toList entry.2) else none

def add (seed : Seed) (given : Text × Text) : Seed :=
  match hintName? given.1 with
  | some name => { seed with hints := seed.hints.set name given.2 }
  | none =>
    if given.1 == "tag".toList || given.1 == "tags".toList then
      { seed with tags := seed.tags ++ readTags given.2 }
    else { seed with custom := seed.custom.set given.1 given.2 }

def ofAttributes (title : Text) (attributes : Attributes) : Seed :=
  attributes.foldl add ⟨title, [], [], []⟩

/-- The fields of the task, in the order in which they are recorded. -/
def fields (seed : Seed) : Fields Json :=
  let tags : Fields Json :=
    if seed.tags.isEmpty then [] else [("tags".toList, .list (seed.tags.map .str))]
  let custom : Fields Json :=
    if seed.custom.isEmpty then []
    else [("custom_fields".toList,
      .object (seed.custom.map fun field => (field.1, .str field.2)))]
  ("title".toList, .str seed.title) ::
    (seed.hints.map fun field => (field.1, Json.str field.2)) ++ tags ++ custom

end Seed

end TodoTracker
