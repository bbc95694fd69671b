import TodoTracker.Pattern.Reader

/-!
# Escapes

A backslash gives the character after it a meaning of its own or takes it away. Letters without a
meaning are refused, so that none changes its meaning later. Inside a set only single characters
and categories can be written, and digits are always octal.
-/

set_option autoImplicit false

namespace TodoTracker.Pattern

/-- What one escape or one character stands for in a set. -/
inductive Atom
  | point (n : Nat)
  | category (category : Category) (negated : Bool)
  deriving DecidableEq, Repr

def category? (c : Char) : Option (Category × Bool) :=
  if c = 'd' then some (.digit, false)
  else if c = 'D' then some (.digit, true)
  else if c = 's' then some (.space, false)
  else if c = 'S' then some (.space, true)
  else if c = 'w' then some (.word, false)
  else if c = 'W' then some (.word, true)
  else none

def condition? (asciiOnly : Bool) (c : Char) : Option Condition :=
  if c = 'A' then some .textStart
  else if c = 'Z' then some .textEnd
  else if c = 'b' then some (.boundary false asciiOnly)
  else if c = 'B' then some (.boundary true asciiOnly)
  else none

/-- Letters that stand for control characters, and the backslash. -/
def control? (c : Char) : Option Nat :=
  if c = 'a' then some 7
  else if c = 'b' then some 8
  else if c = 'f' then some 12
  else if c = 'n' then some 10
  else if c = 'r' then some 13
  else if c = 't' then some 9
  else if c = 'v' then some 11
  else if c = '\\' then some 92
  else none

def isHexDigit (c : Char) : Bool := (Ranges.hexDigit? c).isSome

def isOctalDigit (c : Char) : Bool := 48 ≤ c.toNat && c.toNat ≤ 55

def readOctal (t : Text) : Nat := t.foldl (fun n c => 8 * n + (c.toNat - 48)) 0

def isAsciiLetter (c : Char) : Bool := Text.isAsciiUpper c || Text.isAsciiLower c

namespace Reader

/-- Fail at the start of an escape that has just been read. -/
def failEscape {α : Type} (flaw : Text → Flaw) (escape : Text) : Reader α :=
  fail (flaw escape) escape.length

/-- The code point of an escape with a fixed number of hexadecimal digits. -/
def hexEscape (c : Char) (count : Nat) : Reader Nat := do
  let digits ← takeSome isHexDigit count
  let escape := '\\' :: c :: digits
  if digits.length ≠ count then failEscape .incompleteEscape escape
  let n := Ranges.readHex digits
  if n > 0x10FFFF then failEscape .badEscape escape
  return n

/-- An escape with the name of a character. No name is known here, so none is accepted. -/
def nameEscape : Reader Nat := do
  if !(← accept '\x7b') then fail (.missing ['\x7b']) 0
  let name ← takeUntil '\x7d' "character name"
  fail (.undefinedCharacter name) (name.length + 4)

/-- Escapes that give a code point in hexadecimal or by its name, if `c` starts one. -/
def codeEscape? (c : Char) : Reader (Option Nat) := do
  if c = 'x' then return some (← hexEscape c 2)
  else if c = 'u' then return some (← hexEscape c 4)
  else if c = 'U' then return some (← hexEscape c 8)
  else if c = 'N' then return some (← nameEscape)
  else return none

/-- A character that an escape makes literal: anything but a letter. -/
def literalEscape (c : Char) : Reader Nat := do
  if isAsciiLetter c then failEscape .badEscape ['\\', c]
  return c.toNat

def octalEscape (escape : Text) : Reader Nat := do
  let n := readOctal (escape.drop 1)
  if n > 0o377 then failEscape .octalRange escape
  return n

/-- An escape inside a set. -/
def setEscape (c : Char) : Reader Atom := do
  if let some n := control? c then return .point n
  if let some (category, negated) := category? c then return .category category negated
  if let some n ← codeEscape? c then return .point n
  if isOctalDigit c then
    return .point (← octalEscape ('\\' :: c :: (← takeSome isOctalDigit 2)))
  if Text.isAsciiDigit c then failEscape .badEscape ['\\', c]
  return .point (← literalEscape c)

/-- The width of a group that may be referred to here. -/
def groupWidth (group offset : Nat) : Reader Width := do
  let s ← get
  match (s.groups[group - 1]?).join with
  | none => fail .openGroup offset
  | some width =>
    if let some limit := s.behindLimit then
      if limit ≤ group then fail .groupInLookbehind 0
    return width

end Reader

end TodoTracker.Pattern
