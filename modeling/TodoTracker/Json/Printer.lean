import TodoTracker.Json.Value

/-!
# Printing JSON

Output is ASCII: everything else is written with `u` escapes, code points beyond the sixteen-bit
range as two. The printed document has two blanks per level of nesting, and a blank after a colon.
-/

set_option autoImplicit false

namespace TodoTracker.Json

def escapeUnit (n : Nat) : Text := "\\u".toList ++ Text.hex 4 n

def escapeChar (c : Char) : Text :=
  let n := c.toNat
  if c = '"' then "\\\"".toList
  else if c = '\\' then "\\\\".toList
  else if c = '\n' then "\\n".toList
  else if c = '\r' then "\\r".toList
  else if c = '\t' then "\\t".toList
  else if n = 12 then "\\f".toList
  else if n = 8 then "\\b".toList
  else if 32 ≤ n ∧ n < 127 then [c]
  else if n < 0x10000 then escapeUnit n
  else
    escapeUnit (0xD800 + (n - 0x10000) / 0x400) ++ escapeUnit (0xDC00 + (n - 0x10000) % 0x400)

def printText (t : Text) : Text := '"' :: t.flatMap escapeChar ++ ['"']

def newline (depth : Nat) : Text := '\n' :: List.replicate (2 * depth) ' '

def printBool (b : Bool) : Text := if b then "true".toList else "false".toList

mutual

/-- A value on lines of its own, from the nesting depth of the line it starts on. -/
def printAt (depth : Nat) : Json → Text
  | .null => "null".toList
  | .bool b => printBool b
  | .int n => Text.ofInt n
  | .decimal value => value.text
  | .str t => printText t
  | .list [] => "[]".toList
  | .list (item :: items) =>
    '[' :: newline (depth + 1) ++ printAt (depth + 1) item ++ printItems (depth + 1) items ++
      newline depth ++ [']']
  | .object [] => "\x7b\x7d".toList
  | .object ((name, value) :: fields) =>
    '\x7b' :: newline (depth + 1) ++ printText name ++ ": ".toList ++
      printAt (depth + 1) value ++ printFields (depth + 1) fields ++ newline depth ++ ['\x7d']

def printItems (depth : Nat) : List Json → Text
  | [] => []
  | item :: items => ',' :: newline depth ++ printAt depth item ++ printItems depth items

def printFields (depth : Nat) : List (Text × Json) → Text
  | [] => []
  | (name, value) :: fields =>
    ',' :: newline depth ++ printText name ++ ": ".toList ++ printAt depth value ++
      printFields depth fields

end

def print (value : Json) : Text := printAt 0 value

mutual

/-- A value on one line. -/
def printLine : Json → Text
  | .null => "null".toList
  | .bool b => printBool b
  | .int n => Text.ofInt n
  | .decimal value => value.text
  | .str t => printText t
  | .list [] => "[]".toList
  | .list (item :: items) => '[' :: printLine item ++ printLineItems items ++ [']']
  | .object [] => "\x7b\x7d".toList
  | .object ((name, value) :: fields) =>
    '\x7b' :: printText name ++ ": ".toList ++ printLine value ++ printLineFields fields ++
      ['\x7d']

def printLineItems : List Json → Text
  | [] => []
  | item :: items => ", ".toList ++ printLine item ++ printLineItems items

def printLineFields : List (Text × Json) → Text
  | [] => []
  | (name, value) :: fields =>
    ", ".toList ++ printText name ++ ": ".toList ++ printLine value ++ printLineFields fields

end

end TodoTracker.Json
