import TodoTracker.Text.Basic

/-!
# White space and line breaks

Two different sets: blanks separate words and are trimmed, line breaks end the lines of ignore
files and of status reports. Source lines end at a line feed only and are not cut here.
-/

set_option autoImplicit false

namespace TodoTracker.Text

/-- White space of Unicode, with the four separators at 28 to 31. -/
def isBlank (c : Char) : Bool :=
  let n := c.toNat
  (9 ≤ n && n ≤ 13) || (28 ≤ n && n ≤ 32) || n == 0x85 || n == 0xA0 || n == 0x1680 ||
    (0x2000 ≤ n && n ≤ 0x200A) || n == 0x2028 || n == 0x2029 || n == 0x202F || n == 0x205F ||
    n == 0x3000

def trimEnd (t : Text) : Text := trimEndWhen isBlank t

def trim (t : Text) : Text := trimWhen isBlank t

/-- A text with nothing but blanks in it. -/
def isEmptyLine (t : Text) : Bool := t.all isBlank

/-- The maximal runs of characters that are no blanks. -/
def words (t : Text) : List Text := (splitWhen isBlank t).filter (! ·.isEmpty)

/-- Every run of blanks becomes one space, and the ends lose theirs. -/
def squeeze (t : Text) : Text := joinWith [' '] (words t)

def isLineBreak (c : Char) : Bool :=
  let n := c.toNat
  (10 ≤ n && n ≤ 13) || (28 ≤ n && n ≤ 30) || n == 0x85 || n == 0x2028 || n == 0x2029

/-- The lines of a text without their breaks. A carriage return and the line feed after it are
one break, and a break at the very end starts no further line. -/
def breakLines : Text → List Text
  | [] => []
  | '\r' :: '\n' :: rest => [] :: breakLines rest
  | c :: rest =>
    if isLineBreak c then [] :: breakLines rest
    else match breakLines rest with
      | [] => [[c]]
      | line :: lines => (c :: line) :: lines

/-- A carriage return, with the line feed after it if there is one, becomes a line feed. -/
def unifyNewlines : Text → Text
  | [] => []
  | '\r' :: '\n' :: rest => '\n' :: unifyNewlines rest
  | c :: rest => (if c = '\r' then '\n' else c) :: unifyNewlines rest

end TodoTracker.Text
