import TodoTracker.Json.Value

/-!
# Reading JSON

The reader goes through the text once and reports the first place where no value can go on. It
accepts `NaN`, `Infinity` and `-Infinity`, and of two fields with one name it keeps the later
value in the earlier place. Lone surrogates have no character and read as the replacement
character.
-/

set_option autoImplicit false

namespace TodoTracker.Json

inductive Flaw
  | expectedValue
  | expectedName
  | expectedColon
  | expectedComma
  | unterminatedString
  | controlCharacter
  | escape
  | unicodeEscape
  | extraData
  | byteOrderMark
  deriving DecidableEq, Repr

def Flaw.message : Flaw → Text
  | .expectedValue => "Expecting value".toList
  | .expectedName => "Expecting property name enclosed in double quotes".toList
  | .expectedColon => "Expecting ':' delimiter".toList
  | .expectedComma => "Expecting ',' delimiter".toList
  | .unterminatedString => "Unterminated string starting at".toList
  | .controlCharacter => "Invalid control character at".toList
  | .escape => "Invalid \\escape".toList
  | .unicodeEscape => "Invalid \\uXXXX escape".toList
  | .extraData => "Extra data".toList
  | .byteOrderMark => "Unexpected UTF-8 BOM (decode using utf-8-sig)".toList

structure ParseError where
  flaw : Flaw
  pos : Nat
  deriving DecidableEq, Repr

/-- The flaw with its place in the document: line, column and character. -/
def ParseError.message (doc : Text) (e : ParseError) : Text :=
  let before := doc.take e.pos
  let line := before.count '\n' + 1
  let column := (before.reverse.takeWhile (· != '\n')).length + 1
  e.flaw.message ++ ": line ".toList ++ Text.ofNat line ++ " column ".toList ++
    Text.ofNat column ++ " (char ".toList ++ Text.ofNat e.pos ++ [')']

/-- What is left of the document and where that starts. -/
structure Cursor where
  rest : Text
  pos : Nat

namespace Cursor

def skip (cur : Cursor) (n : Nat) : Cursor := ⟨cur.rest.drop n, cur.pos + n⟩

def isSpace (c : Char) : Bool := c == ' ' || c == '\t' || c == '\n' || c == '\r'

def skipSpace (cur : Cursor) : Cursor := cur.skip (cur.rest.takeWhile isSpace).length

def fail {α : Type} (cur : Cursor) (flaw : Flaw) : Except ParseError α := .error ⟨flaw, cur.pos⟩

end Cursor

/-- The value of four hexadecimal digits that are not the last characters of the document. -/
def fourHex? (t : Text) : Option Nat :=
  match t with
  | a :: b :: c :: d :: _ :: _ => do
    let a ← Ranges.hexDigit? a
    let b ← Ranges.hexDigit? b
    let c ← Ranges.hexDigit? c
    let d ← Ranges.hexDigit? d
    some (((a * 16 + b) * 16 + c) * 16 + d)
  | _ => none

def simpleEscape? (c : Char) : Option Char :=
  if c = '"' || c = '\\' || c = '/' then some c
  else if c = 'b' then some (Char.ofNat 8)
  else if c = 'f' then some (Char.ofNat 12)
  else if c = 'n' then some '\n'
  else if c = 'r' then some '\r'
  else if c = 't' then some '\t'
  else none

def isHighSurrogate (n : Nat) : Bool := 0xD800 ≤ n && n < 0xDC00

def isLowSurrogate (n : Nat) : Bool := 0xDC00 ≤ n && n < 0xE000

def charOfUnit (n : Nat) : Char :=
  if isHighSurrogate n || isLowSurrogate n then Char.ofNat 0xFFFD else Char.ofNat n

/-- The escape that starts after a backslash at `cur`: its character and its length. -/
def readEscape (start : Nat) (cur : Cursor) : Except ParseError (Char × Nat) :=
  match cur.rest with
  | [] => .error ⟨.unterminatedString, start⟩
  | 'u' :: digits =>
    match fourHex? digits with
    | none => cur.fail .unicodeEscape
    | some high =>
      match isHighSurrogate high && 11 < digits.length, digits.drop 4 with
      | true, '\\' :: 'u' :: second =>
        match fourHex? second with
        | none => (cur.skip 6).fail .unicodeEscape
        | some low =>
          if isLowSurrogate low then
            .ok (Char.ofNat (0x10000 + (high - 0xD800) * 0x400 + (low - 0xDC00)), 11)
          else .ok (charOfUnit high, 5)
      | _, _ => .ok (charOfUnit high, 5)
  | c :: _ =>
    match simpleEscape? c with
    | some d => .ok (d, 1)
    | none => .error ⟨.escape, cur.pos - 1⟩

/-- The characters up to the closing quote. `start` is the place of the opening quote, `skip` the
length of what is left of an escape. -/
def readStringFrom (start : Nat) : Nat → Nat → Text → Except ParseError (Text × Cursor)
  | _, _, [] => .error ⟨.unterminatedString, start⟩
  | pos, skip + 1, _ :: rest => readStringFrom start (pos + 1) skip rest
  | pos, 0, c :: rest =>
    if c = '"' then .ok ([], ⟨rest, pos + 1⟩)
    else if c = '\\' then do
      let (d, size) ← readEscape start ⟨rest, pos + 1⟩
      let (t, cur) ← readStringFrom start (pos + 1) size rest
      .ok (d :: t, cur)
    else if c.toNat < 32 then .error ⟨.controlCharacter, pos⟩
    else do
      let (t, cur) ← readStringFrom start (pos + 1) 0 rest
      .ok (c :: t, cur)

/-- The string whose opening quote is at `cur`. -/
def readString (cur : Cursor) : Except ParseError (Text × Cursor) :=
  readStringFrom cur.pos (cur.pos + 1) 0 (cur.rest.drop 1)

def digitRun (t : Text) : Text := t.takeWhile Text.isAsciiDigit

/-- The length of the fraction that `t` starts with: a point and at least one digit. -/
def fractionLength : Text → Nat
  | '.' :: rest => if (digitRun rest).isEmpty then 0 else (digitRun rest).length + 1
  | _ => 0

def exponentLength : Text → Nat
  | c :: rest =>
    if c = 'e' || c = 'E' then
      let sign := match rest with
        | s :: _ => if s = '+' || s = '-' then 1 else 0
        | [] => 0
      let digits := (digitRun (rest.drop sign)).length
      if digits = 0 then 0 else 1 + sign + digits
    else 0
  | [] => 0

/-- The number at `cur`: an integer unless it has a fraction or an exponent. -/
def readNumber (cur : Cursor) : Except ParseError (Json × Cursor) :=
  let sign := if cur.rest.head? = some '-' then 1 else 0
  let digits := digitRun (cur.rest.drop sign)
  let whole := if digits.head? = some '0' then 1 else digits.length
  if whole = 0 then cur.fail .expectedValue
  else
    let fraction := fractionLength (cur.rest.drop (sign + whole))
    let exponent := exponentLength (cur.rest.drop (sign + whole + fraction))
    let size := sign + whole + fraction + exponent
    if fraction + exponent = 0 then
      let n := Text.digitsValue (digits.take whole)
      .ok (.int (if sign = 1 then -(n : Int) else n), cur.skip size)
    else .ok (.decimal (.ofLiteral (cur.rest.take size)), cur.skip size)

def words : List (Text × Json) :=
  [("null".toList, .null), ("true".toList, .bool true), ("false".toList, .bool false),
    ("NaN".toList, .decimal .undefined), ("Infinity".toList, .decimal (.infinite false)),
    ("-Infinity".toList, .decimal (.infinite true))]

/-- A word or a number. -/
def readScalar (cur : Cursor) : Except ParseError (Json × Cursor) :=
  match words.find? fun word => word.1.isPrefixOf cur.rest with
  | some (word, value) => .ok (value, cur.skip word.length)
  | none => readNumber cur

mutual

/-- The value at `cur`. Every call has read at least one character since the one that made it, so
more calls than characters are never nested. -/
def readValue : Nat → Cursor → Except ParseError (Json × Cursor)
  | 0, cur => cur.fail .expectedValue
  | fuel + 1, cur =>
    match cur.rest with
    | '"' :: _ => do
      let (t, cur) ← readString cur
      .ok (.str t, cur)
    | '[' :: _ =>
      let inner := (cur.skip 1).skipSpace
      if inner.rest.head? = some ']' then .ok (.list [], inner.skip 1)
      else do
        let (items, cur) ← readItems fuel inner
        .ok (.list items, cur)
    | '\x7b' :: _ =>
      let inner := (cur.skip 1).skipSpace
      if inner.rest.head? = some '\x7d' then .ok (.object [], inner.skip 1)
      else do
        let (fields, cur) ← readFields fuel inner
        .ok (.object (Fields.ofList fields), cur)
    | _ => readScalar cur

def readItems : Nat → Cursor → Except ParseError (List Json × Cursor)
  | 0, cur => cur.fail .expectedValue
  | fuel + 1, cur => do
    let (item, cur) ← readValue fuel cur
    let cur := cur.skipSpace
    match cur.rest with
    | ']' :: _ => .ok ([item], cur.skip 1)
    | ',' :: _ => do
      let (items, cur) ← readItems fuel (cur.skip 1).skipSpace
      .ok (item :: items, cur)
    | _ => cur.fail .expectedComma

def readFields : Nat → Cursor → Except ParseError (List (Text × Json) × Cursor)
  | 0, cur => cur.fail .expectedName
  | fuel + 1, cur => do
    if cur.rest.head? ≠ some '"' then cur.fail .expectedName
    let (name, cur) ← readString cur
    let cur := cur.skipSpace
    if cur.rest.head? ≠ some ':' then cur.fail .expectedColon
    let (value, cur) ← readValue fuel (cur.skip 1).skipSpace
    let cur := cur.skipSpace
    match cur.rest with
    | '\x7d' :: _ => .ok ([(name, value)], cur.skip 1)
    | ',' :: _ => do
      let (fields, cur) ← readFields fuel (cur.skip 1).skipSpace
      .ok ((name, value) :: fields, cur)
    | _ => cur.fail .expectedComma

end

/-- The value that the document writes. -/
def parse (doc : Text) : Except ParseError Json := do
  if doc.head? = some (Char.ofNat 0xFEFF) then .error ⟨.byteOrderMark, 0⟩
  let (value, cur) ← readValue (2 * doc.length + 2) (Cursor.skipSpace ⟨doc, 0⟩)
  let cur := cur.skipSpace
  if cur.rest.isEmpty then .ok value else cur.fail .extraData

end TodoTracker.Json
