import TodoTracker.Text.Blank

/-!
# Signal words

A signal word marks a comment as something to do. It counts where neither the character before it
nor the one after it is a letter, a digit or an underscore of ASCII; the end of the comment's body
counts as the end of the text. Of several words at one place the longest is taken.
-/

set_option autoImplicit false

namespace TodoTracker

/-- The columns of a signal word and the word. -/
structure Signal where
  start : Nat
  stop : Nat
  word : Text
  deriving DecidableEq, Repr

namespace Signal

/-- Longer words first, words of one length in their order as texts. -/
def wordOrder (a b : Text) : Bool :=
  b.length < a.length || (a.length == b.length && Text.le a b)

/-- The words as they are searched for: trimmed, each once, in the order of preference. -/
def prepare (words : List Text) : List Text :=
  (((words.map Text.trim).filter (! ·.isEmpty)).eraseDups).mergeSort wordOrder

/-- Whether a word may start after the character `before` or end before it. -/
def isEdge (before : Option Char) : Bool := !before.any Text.isAsciiWord

/-- The word that starts at the beginning of `rest`. -/
def wordAt? (words : List Text) (before : Option Char) (rest : Text) : Option Text :=
  if isEdge before then
    words.find? fun word => word.isPrefixOf rest && isEdge (rest.drop word.length).head?
  else none

/-- The signal words from column `pos` on, when `skip` characters still belong to the one found
last and `before` is the character at the left. -/
def findFrom (words : List Text) (pos skip : Nat) (before : Option Char) : Text → List Signal
  | [] => []
  | c :: rest =>
    match skip with
    | skip + 1 => findFrom words (pos + 1) skip (some c) rest
    | 0 =>
      match wordAt? words before (c :: rest) with
      | some word =>
        ⟨pos, pos + word.length, word⟩ ::
          findFrom words (pos + 1) (word.length - 1) (some c) rest
      | none => findFrom words (pos + 1) 0 (some c) rest

/-- The signal words in the columns from `start` to `stop` of a line. -/
def findAll (words : List Text) (line : Text) (start stop : Nat) : List Signal :=
  findFrom words start 0 (line.take start).getLast? (Text.slice line start stop)

end Signal

end TodoTracker
