import TodoTracker.Text.Basic

/-!
# Where a key occurs

A line holds a key when the key stands in it as a token of its own: no letter, digit or underscore
of ASCII right before or after it, and no hyphen before it. A lost key is searched near the line
where it was and then in all lines.
-/

set_option autoImplicit false

namespace TodoTracker

namespace KeyToken

def isFreeBefore (before : Option Char) : Bool :=
  !before.any fun c => Text.isAsciiWord c || c == '-'

def isFreeAfter (rest : Text) : Bool := !rest.head?.any Text.isAsciiWord

/-- Whether the key is a token at the start of `rest`. -/
def startsWith (before : Option Char) (rest key : Text) : Bool :=
  isFreeBefore before && key.isPrefixOf rest && isFreeAfter (rest.drop key.length)

def occursFrom (key : Text) (before : Option Char) : Text → Bool
  | [] => startsWith before [] key
  | c :: rest => startsWith before (c :: rest) key || occursFrom key (some c) rest

/-- Whether a line holds a key. -/
def occursIn (line key : Text) : Bool := occursFrom key none line

/-- The line with a number counted from 1 holds the key. -/
def isAt (lines : List Text) (key : Text) (number : Int) : Bool :=
  1 ≤ number && (lines[(number - 1).toNat]?).any (occursIn · key)

/-- Try `left` distances from `distance` on, at each the later line first. -/
def searchNear (lines : List Text) (expected : Int) (key : Text) : Nat → Nat → Option Int
  | _, 0 => none
  | distance, left + 1 =>
    if isAt lines key (expected + distance) then some (expected + distance)
    else if isAt lines key (expected - distance) then some (expected - distance)
    else searchNear lines expected key (distance + 1) left

/-- The line that holds the key and is nearest to the expected one, at most `radius` lines away.
Of two lines at one distance the later is taken. -/
def nearbyLine? (lines : List Text) (expected : Int) (key : Text) (radius : Int) : Option Int :=
  let reach := min radius.toNat (lines.length + expected.natAbs)
  searchNear lines expected key 0 (reach + 1)

/-- The better of the line `number` and the best line so far: the nearer, of two the later. -/
def nearer (expected number : Int) : Option Int → Int
  | none => number
  | some best => if (number - expected).natAbs ≤ (best - expected).natAbs then number else best

def nearestFrom (expected : Int) (key : Text) (number : Int) (best : Option Int) :
    List Text → Option Int
  | [] => best
  | line :: rest =>
    nearestFrom expected key (number + 1)
      (if occursIn line key then some (nearer expected number best) else best) rest

/-- The line nearest to the expected one that holds the key, anywhere in the file. -/
def nearestLine? (lines : List Text) (expected : Int) (key : Text) : Option Int :=
  nearestFrom expected key 1 none lines

end KeyToken

end TodoTracker
