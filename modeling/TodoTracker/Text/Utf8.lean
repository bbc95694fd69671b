import TodoTracker.Text.Basic

/-!
# UTF-8

A character is written as one to four bytes. Reading cuts the bytes into pieces, each a character
or a flaw: a byte that starts nothing, a sequence that breaks off at a byte which does not
continue it, or one that breaks off at the end. A flaw takes as many bytes as were still the
beginning of a character, at least one.
-/

set_option autoImplicit false

namespace TodoTracker

abbrev Bytes := List UInt8

namespace Utf8

def encodeChar (c : Char) : Bytes :=
  let n := c.toNat
  if n < 0x80 then [.ofNat n]
  else if n < 0x800 then [.ofNat (0xC0 + n / 0x40), .ofNat (0x80 + n % 0x40)]
  else if n < 0x10000 then
    [.ofNat (0xE0 + n / 0x1000), .ofNat (0x80 + n / 0x40 % 0x40), .ofNat (0x80 + n % 0x40)]
  else
    [.ofNat (0xF0 + n / 0x40000), .ofNat (0x80 + n / 0x1000 % 0x40),
      .ofNat (0x80 + n / 0x40 % 0x40), .ofNat (0x80 + n % 0x40)]

def encode (t : Text) : Bytes := t.flatMap encodeChar

inductive Flaw
  | startByte
  | continuation
  | truncated
  deriving DecidableEq, Repr

def Flaw.message : Flaw → Text
  | .startByte => "invalid start byte".toList
  | .continuation => "invalid continuation byte".toList
  | .truncated => "unexpected end of data".toList

def continues (b : UInt8) : Bool := 0x80 ≤ b.toNat && b.toNat < 0xC0

/-- Whether `b` may follow the first byte `a`: the second byte also rules out longer forms than
needed, surrogates, and what lies beyond the last code point. -/
def follows (a b : UInt8) : Bool :=
  continues b &&
    (if a.toNat == 0xE0 then 0xA0 ≤ b.toNat
    else if a.toNat == 0xED then b.toNat < 0xA0
    else if a.toNat == 0xF0 then 0x90 ≤ b.toNat
    else if a.toNat == 0xF4 then b.toNat < 0x90
    else true)

/-- How many bytes the character has that starts with `b`; none starts a character at 0. -/
def width (b : UInt8) : Nat :=
  let n := b.toNat
  if n < 0x80 then 1
  else if n < 0xC2 then 0
  else if n < 0xE0 then 2
  else if n < 0xF0 then 3
  else if n < 0xF5 then 4
  else 0

def tailBits (b : UInt8) : Nat := b.toNat % 0x40

/-- What the bytes `b :: rest` start with, and how many of them that takes. -/
def head (b : UInt8) (rest : Bytes) : Except Flaw Char × Nat :=
  match width b, rest with
  | 1, _ => (.ok (Char.ofNat b.toNat), 1)
  | 2, [] => (.error .truncated, 1)
  | 2, c :: _ =>
    if follows b c then (.ok (Char.ofNat (b.toNat % 0x20 * 0x40 + tailBits c)), 2)
    else (.error .continuation, 1)
  | 3, [] => (.error .truncated, 1)
  | 3, c :: rest =>
    if !follows b c then (.error .continuation, 1)
    else match rest with
      | [] => (.error .truncated, 2)
      | d :: _ =>
        if continues d then
          (.ok (Char.ofNat (b.toNat % 0x10 * 0x1000 + tailBits c * 0x40 + tailBits d)), 3)
        else (.error .continuation, 2)
  | 4, [] => (.error .truncated, 1)
  | 4, c :: rest =>
    if !follows b c then (.error .continuation, 1)
    else match rest with
      | [] => (.error .truncated, 2)
      | d :: rest =>
        if !continues d then (.error .continuation, 2)
        else match rest with
          | [] => (.error .truncated, 3)
          | e :: _ =>
            if continues e then
              (.ok (Char.ofNat (b.toNat % 0x08 * 0x40000 + tailBits c * 0x1000 +
                tailBits d * 0x40 + tailBits e)), 4)
            else (.error .continuation, 3)
  | _, _ => (.error .startByte, 1)

structure Piece where
  content : Except Flaw Char
  start : Nat
  size : Nat

/-- The pieces from byte number `start` on, when `skip` bytes belong to the piece before. -/
def piecesFrom : Nat → Nat → Bytes → List Piece
  | _, _, [] => []
  | start, skip + 1, _ :: rest => piecesFrom (start + 1) skip rest
  | start, 0, b :: rest =>
    let (content, size) := head b rest
    ⟨content, start, size⟩ :: piecesFrom (start + 1) (size - 1) rest

def pieces (bytes : Bytes) : List Piece := piecesFrom 0 0 bytes

/-- A flaw, the bytes it takes, and the first of them. -/
structure DecodeError where
  flaw : Flaw
  start : Nat
  size : Nat
  first : UInt8
  deriving Repr

def DecodeError.message (e : DecodeError) : Text :=
  let place :=
    if e.size ≤ 1 then
      "byte 0x".toList ++ Text.hex 2 e.first.toNat ++ " in position ".toList ++ Text.ofNat e.start
    else
      "bytes in position ".toList ++ Text.ofNat e.start ++ ['-'] ++
        Text.ofNat (e.start + e.size - 1)
  "'utf-8' codec can't decode ".toList ++ place ++ ": ".toList ++ e.flaw.message

/-- The text that the bytes write, or the first flaw in them. -/
def decode (bytes : Bytes) : Except DecodeError Text :=
  (pieces bytes).mapM fun piece => match piece.content with
    | .ok c => .ok c
    | .error flaw => .error ⟨flaw, piece.start, piece.size, (bytes.drop piece.start).headD 0⟩

/-- The text that the bytes write, with a replacement character for every flaw. -/
def decodeReplacing (bytes : Bytes) : Text :=
  (pieces bytes).map fun piece => match piece.content with
    | .ok c => c
    | .error _ => Char.ofNat 0xFFFD

/-- The text that the bytes write, without their flaws. -/
def decodeSkipping (bytes : Bytes) : Text :=
  (pieces bytes).filterMap fun piece => piece.content.toOption

end Utf8

end TodoTracker
