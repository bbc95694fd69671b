import TodoTracker.Text.Utf8
import TodoTracker.Text.Blank
import TodoTracker.Text.Ranges

/-!
# Quoted paths in status reports

A path with unusual characters is printed between double quotes, its bytes escaped as in C. Reading
turns the bytes of the quoted text and its escapes into code points below 256, takes those as the
bytes of the path, and decodes them.
-/

set_option autoImplicit false

namespace TodoTracker.Git

inductive EscapeFlaw
  | atEnd
  | hex2
  | hex4
  | hex8
  | tooLarge
  | malformedName
  | unknownName
  deriving DecidableEq, Repr

def EscapeFlaw.message : EscapeFlaw → Text
  | .atEnd => "\\ at end of string".toList
  | .hex2 => "truncated \\xXX escape".toList
  | .hex4 => "truncated \\uXXXX escape".toList
  | .hex8 => "truncated \\UXXXXXXXX escape".toList
  | .tooLarge => "illegal Unicode character".toList
  | .malformedName => "malformed \\N character escape".toList
  | .unknownName => "unknown Unicode character name".toList

/-- Why a quoted path cannot be read. Positions count bytes or code points from the opening quote;
the second position is that of the last one concerned. -/
inductive QuoteError
  | escape (flaw : EscapeFlaw) (first last : Nat)
  | wide (point first last : Nat)
  deriving DecidableEq, Repr

def QuoteError.message : QuoteError → Text
  | .escape flaw first last =>
    let place :=
      if first = last then "byte 0x5c in position ".toList ++ Text.ofNat first
      else "bytes in position ".toList ++ Text.ofNat first ++ '-' :: Text.ofNat last
    "'unicodeescape' codec can't decode ".toList ++ place ++ ": ".toList ++ flaw.message
  | .wide point first last =>
    let escaped :=
      if point < 0x10000 then "\\u".toList ++ Text.hex 4 point else "\\U".toList ++ Text.hex 8 point
    let place :=
      if first = last then
        "character '".toList ++ escaped ++ "' in position ".toList ++ Text.ofNat first
      else "characters in position ".toList ++ Text.ofNat first ++ '-' :: Text.ofNat last
    "'latin-1' codec can't encode ".toList ++ place ++ ": ordinal not in range(256)".toList

/-- What an escape stands for and how many bytes it takes after the backslash. -/
inductive Escape
  | points (points : List Nat) (size : Nat)
  | flaw (flaw : EscapeFlaw) (size : Nat)
  deriving Repr

def charOf (b : UInt8) : Char := Char.ofNat b.toNat

def isOctal (b : UInt8) : Bool := 48 ≤ b.toNat && b.toNat ≤ 55

/-- An escape with a fixed number of hexadecimal digits, after its letter. -/
def hexEscape (flaw : EscapeFlaw) (count : Nat) (rest : Bytes) : Escape :=
  let digits := (rest.take count).map charOf |>.takeWhile fun c => (Ranges.hexDigit? c).isSome
  if digits.length < count then .flaw flaw (1 + digits.length)
  else
    let n := Ranges.readHex digits
    if n > 0x10FFFF then .flaw .tooLarge (1 + count) else .points [n] (1 + count)

/-- An escape by the name of a character. No name is known here. -/
def nameEscape (rest : Bytes) : Escape :=
  match rest.map charOf with
  | '\x7b' :: after =>
    let name := after.takeWhile (· != '\x7d')
    if name.length = after.length then .flaw .malformedName (2 + name.length)
    else if name.isEmpty then .flaw .malformedName 2
    else .flaw .unknownName (3 + name.length)
  | _ => .flaw .malformedName 1

/-- The code point of a control character that a letter stands for. -/
def controlPoint? (c : Char) : Option Nat :=
  [('a', 7), ('b', 8), ('t', 9), ('n', 10), ('v', 11), ('f', 12), ('r', 13)].lookup c

/-- The escape that follows a backslash. One that is not known keeps its backslash. -/
def readEscape : Bytes → Escape
  | [] => .flaw .atEnd 0
  | b :: rest =>
    let c := charOf b
    if c = '\n' then .points [] 1
    else if c = '\\' || c = '"' || c = '\x27' then .points [b.toNat] 1
    else if isOctal b then
      let digits := b :: (rest.take 2).takeWhile isOctal
      .points [digits.foldl (fun n d => 8 * n + (d.toNat - 48)) 0] digits.length
    else if c = 'x' then hexEscape .hex2 2 rest
    else if c = 'u' then hexEscape .hex4 4 rest
    else if c = 'U' then hexEscape .hex8 8 rest
    else if c = 'N' then nameEscape rest
    else match controlPoint? c with
      | some n => .points [n] 1
      | none => .points [92, b.toNat] 1

/-- The code points that the bytes from number `pos` on write, when `skip` bytes belong to the
escape before. -/
def pointsFrom (pos : Nat) : Nat → Bytes → Except QuoteError (List Nat)
  | _, [] => .ok []
  | skip + 1, _ :: rest => pointsFrom (pos + 1) skip rest
  | 0, b :: rest =>
    if b.toNat = 92 then
      match readEscape rest with
      | .flaw flaw size => .error (.escape flaw pos (pos + size))
      | .points points size => (points ++ ·) <$> pointsFrom (pos + 1) size rest
    else (b.toNat :: ·) <$> pointsFrom (pos + 1) 0 rest

/-- The code points as bytes. The first run of code points that are no bytes is an error. -/
def bytesOfPoints (points : List Nat) : Except QuoteError Bytes :=
  let before := points.takeWhile (· < 256)
  let wide := (points.drop before.length).takeWhile (256 ≤ ·)
  match wide with
  | [] => .ok (points.map UInt8.ofNat)
  | point :: _ => .error (.wide point before.length (before.length + wide.length - 1))

/-- The path that a text from a status report names. -/
def readQuoted (t : Text) : Except QuoteError Text :=
  let path := Text.trim t
  match path, path.getLast? with
  | '"' :: inner@(_ :: _), some '"' => do
    let points ← pointsFrom 0 0 (Utf8.encode inner.dropLast)
    return Utf8.decodeReplacing (← bytesOfPoints points)
  | _, _ => .ok path

end TodoTracker.Git
