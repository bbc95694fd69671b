import TodoTracker.Json.Value

/-!
# Code anchors

An anchor says that a task is about a line of a file. It is written as the path, a hash sign, the
letter L and the line number. A reader also accepts the form without the letter, and anything after
the number that starts with a hyphen, a colon or a hash sign.
-/

set_option autoImplicit false

namespace TodoTracker

structure Anchor where
  file : Text
  line : Int
  deriving DecidableEq, Repr

namespace Anchor

/-- The written form of an anchor. -/
def codeOf (file : Text) (line : Int) : Text := file ++ "#L".toList ++ Text.ofInt line

def code (anchor : Anchor) : Text := codeOf anchor.file anchor.line

/-- The place right before a line feed that ends the text counts as its end. -/
def isEnd (rest : Text) : Bool := rest.isEmpty || rest == ['\n']

def isSuffixMark (c : Char) : Bool := c == '-' || c == ':' || c == '#'

/-- The line number, when `rest` is what follows a hash sign in a written anchor. -/
def readLine? (rest : Text) : Option Nat :=
  let rest := match rest with
    | 'L' :: tail => tail
    | _ => rest
  let digits := rest.takeWhile Text.isDigit
  let tail := rest.drop digits.length
  let tailFits := isEnd tail ||
    (tail.head?.any isSuffixMark && isEnd (tail.dropWhile (· != '\n')))
  if digits.isEmpty || !tailFits then none else some (Text.digitsValue digits)

/-- The path in front of the first hash sign that a line number follows, and the number. Without
one the whole text is a path. -/
def splitFrom (before : Text) : Text → Text × Option Nat
  | [] => (before.reverse, none)
  | c :: rest =>
    match c == '#', readLine? rest with
    | true, some line => (before.reverse, some line)
    | _, _ => splitFrom (c :: before) rest

def splitCode (code : Text) : Text × Option Nat := splitFrom [] code

/-- The anchor that a text writes: it names a path and a line from 1 on. -/
def ofCode? (code : Text) : Option Anchor :=
  match splitCode (Text.trim code) with
  | (file, some line) => if file.isEmpty || line == 0 then none else some ⟨file, line⟩
  | (_, none) => none

/-- The anchor in a reference of a task, if it is one to code. -/
def ofReference? (reference : Json) : Option Anchor :=
  match reference.field? "code" with
  | some (.str code) => ofCode? code
  | _ => none

def toReference (anchor : Anchor) : Json := .object [("code".toList, .str anchor.code)]

end Anchor

end TodoTracker
