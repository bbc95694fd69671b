import TodoTracker.Json.Value
import TodoTracker.Pattern.Flaw
import TodoTracker.Pattern.Syntax

/-!
# Reading a pattern, token by token

A token is a character, or a backslash with the character after it. The reader always holds the
next token, so a backslash at the very end of a pattern is found as soon as it comes next. It also
keeps what has been read of groups: how wide each closed group is, the names, and which groups a
look back may refer to.
-/

set_option autoImplicit false

namespace TodoTracker.Pattern

inductive Token
  | plain (c : Char)
  | escaped (c : Char)
  deriving DecidableEq, Repr

def Token.text : Token → Text
  | .plain c => [c]
  | .escaped c => ['\\', c]

structure Source where
  rest : Text
  /-- The column after the next token. -/
  index : Nat
  next : Option Token

/-- The column of the next token. -/
def Source.pos (source : Source) : Nat :=
  source.index - ((source.next.map Token.text).getD []).length

structure Flags where
  ignoreCase : Bool := false
  multiline : Bool := false
  dotAll : Bool := false
  verbose : Bool := false
  asciiOnly : Bool := false
  deriving DecidableEq, Repr

namespace Flags

def folding (flags : Flags) : Folding :=
  if flags.ignoreCase then if flags.asciiOnly then .ascii else .unicode else .exact

/-- Turn the flags with the letters of `on` on and then those of `off` off. -/
def adjust (flags : Flags) (on off : List Char) : Flags where
  ignoreCase := (flags.ignoreCase || on.contains 'i') && !off.contains 'i'
  multiline := (flags.multiline || on.contains 'm') && !off.contains 'm'
  dotAll := (flags.dotAll || on.contains 's') && !off.contains 's'
  verbose := (flags.verbose || on.contains 'x') && !off.contains 'x'
  asciiOnly := on.contains 'a' || (flags.asciiOnly && !on.contains 'u')

end Flags

/-- The least and the greatest number of characters that a pattern can match. -/
structure Width where
  least : Nat
  greatest : Nat
  deriving DecidableEq, Repr

namespace Width

/-- Widths from here on are not told apart. -/
def bound : Nat := 0x10000000000000000

def zero : Width := ⟨0, 0⟩

def one : Width := ⟨1, 1⟩

def add (a b : Width) : Width :=
  ⟨min bound (a.least + b.least), min bound (a.greatest + b.greatest)⟩

def join (a b : Width) : Width := ⟨min a.least b.least, max a.greatest b.greatest⟩

def repeated (w : Width) (least : Nat) (most : Option Nat) : Width :=
  ⟨min bound (w.least * least), match most with
    | some n => min bound (w.greatest * n)
    | none => if w.greatest = 0 then 0 else bound⟩

end Width

structure ReaderState where
  source : Source
  flags : Flags
  /-- The widths of the groups from the first on, none for a group that is still open. -/
  groups : List (Option Width)
  names : Fields Nat
  /-- Inside a look back, the number of the first group that was opened there. -/
  behindLimit : Option Nat
  /-- Groups that a condition asks for, with the column of the question. -/
  questions : List (Nat × Nat)
  /-- Whether some look back can match texts of different lengths. -/
  unevenBehind : Bool

abbrev Reader := StateT ReaderState (Except PatternError)

namespace Reader

def failAt {α : Type} (flaw : Flaw) (pos : Nat) : Reader α := throw ⟨flaw, some pos⟩

/-- Fail `offset` columns before the next token. -/
def fail {α : Type} (flaw : Flaw) (offset : Nat) : Reader α := do
  failAt flaw ((← get).source.pos - offset)

def pos : Reader Nat := do return (← get).source.pos

def next : Reader (Option Token) := do return (← get).source.next

def nextIs (c : Char) : Reader Bool := do return (← next) == some (.plain c)

def advance : Reader Unit := do
  let source := (← get).source
  match source.rest with
  | [] => modify fun s => { s with source := { source with next := none } }
  | ['\\'] => failAt .danglingBackslash source.index
  | '\\' :: c :: rest =>
    modify fun s => { s with source := ⟨rest, source.index + 2, some (.escaped c)⟩ }
  | c :: rest => modify fun s => { s with source := ⟨rest, source.index + 1, some (.plain c)⟩ }

def take : Reader (Option Token) := do
  let token ← next
  advance
  return token

/-- Pass over `c` if it comes next. -/
def accept (c : Char) : Reader Bool := do
  if ← nextIs c then
    advance
    return true
  else return false

/-- At most `n` characters that satisfy `p`. -/
def takeSome (p : Char → Bool) : Nat → Reader Text
  | 0 => return []
  | n + 1 => do
    match ← next with
    | some (.plain c) =>
      if p c then
        advance
        return c :: (← takeSome p n)
      else return []
    | _ => return []

/-- A number that bounds how many tokens are left. -/
def left : Reader Nat := do return (← get).source.rest.length + 1

def takeUntilWithin (terminator : Char) (what : Text) : Nat → Text → Reader Text
  | 0, name => return name
  | fuel + 1, name => do
    match ← take with
    | none =>
      if name.isEmpty then fail (.missing what) 0
      else fail (.unterminatedName terminator) name.length
    | some token =>
      if token == .plain terminator then
        if name.isEmpty then fail (.missing what) 1 else return name
      else takeUntilWithin terminator what fuel (name ++ token.text)

/-- A name up to its terminator, which is passed over. -/
def takeUntil (terminator : Char) (what : String) : Reader Text := do
  takeUntilWithin terminator what.toList ((← left) + 1) []

end Reader

end TodoTracker.Pattern
