import TodoTracker.Text.Utf8

/-!
# Source lines

A source line keeps its ending, a line feed with or without a carriage return before it, so that
joining the lines of a text gives the text back. Only the last line may lack an ending. A carriage
return anywhere else is an ordinary character.
-/

set_option autoImplicit false

namespace TodoTracker

inductive Ending
  | none
  | lf
  | crlf
  deriving DecidableEq, Repr

def Ending.text : Ending → Text
  | .none => []
  | .lf => ['\n']
  | .crlf => ['\r', '\n']

structure Line where
  content : Text
  ending : Ending
  deriving DecidableEq, Repr

namespace Line

def text (line : Line) : Text := line.content ++ line.ending.text

/-- Put a character in front of lines. A carriage return joins the line feed after it. -/
def cons (c : Char) (lines : List Line) : List Line :=
  if c = '\n' then ⟨[], .lf⟩ :: lines
  else match lines with
    | [] => [⟨[c], .none⟩]
    | line :: rest =>
      if c = '\r' ∧ line = ⟨[], .lf⟩ then ⟨[], .crlf⟩ :: rest
      else ⟨c :: line.content, line.ending⟩ :: rest

def split (t : Text) : List Line := t.foldr cons []

def join (lines : List Line) : Text := lines.flatMap text

end Line

namespace Text

/-- The contents of the source lines of a text. -/
def contents (t : Text) : List Text := (Line.split t).map Line.content

/-- At most `limit` bytes of a text; a negative limit counts from the end. A text that is too
long is cut between two characters and gets three dots. -/
def preview (t : Text) (limit : Int) : Text :=
  let bytes := Utf8.encode t
  if bytes.length ≤ limit then t
  else
    let size := if limit < 0 then bytes.length - limit.natAbs else limit.toNat
    Utf8.decodeSkipping (bytes.take size) ++ "...".toList

end Text

end TodoTracker
