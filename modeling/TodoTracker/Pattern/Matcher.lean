import TodoTracker.Pattern.Syntax

/-!
# Matching

A match is searched by trying the choices of a pattern in order and going back when what follows
fails. The matcher of a node gets what follows as a function; so the first way through the whole
pattern is the answer. A match looks at a window of a text: what lies before the window is seen by
conditions and by looking back, and the end of the window counts as the end of the text.
-/

set_option autoImplicit false

namespace TodoTracker

namespace Pattern

/-- A place in the window, with the characters before it in reverse, those from it to the end of
the window, and the places that groups have recorded, the latest first. Group `i` starts at mark
`2 * i` and ends at mark `2 * i + 1`. -/
structure Place where
  pos : Nat
  before : Text
  rest : Text
  marks : List (Nat × Nat)

namespace Place

/-- The place at column `start` of a window that ends at column `stop`. -/
def enter (line : Text) (start stop : Nat) : Place :=
  let window := line.take stop
  ⟨min start window.length, (window.take start).reverse, window.drop start, []⟩

def mark (place : Place) (index : Nat) : Place :=
  { place with marks := (index, place.pos) :: place.marks }

def markAt? (place : Place) (index : Nat) : Option Nat :=
  (place.marks.find? (·.1 == index)).map (·.2)

/-- Where a group starts and ends. -/
def group? (place : Place) (index : Nat) : Option (Nat × Nat) :=
  match place.markAt? (2 * index), place.markAt? (2 * index + 1) with
  | some start, some stop => if start ≤ stop then some (start, stop) else none
  | _, _ => none

/-- The place after the next character. -/
def next (place : Place) (c : Char) (rest : Text) : Place :=
  { place with pos := place.pos + 1, before := c :: place.before, rest }

/-- The place `width` characters back. -/
def back? (place : Place) (width : Nat) : Option Place :=
  if width ≤ place.before.length then
    some { place with
      pos := place.pos - width
      before := place.before.drop width
      rest := (place.before.take width).reverse ++ place.rest }
  else none

/-- The text between two columns of the window. -/
def textOf (place : Place) (range : Nat × Nat) : Text :=
  Text.slice (place.before.reverse ++ place.rest) range.1 range.2

def wordBefore (place : Place) (asciiOnly : Bool) : Bool :=
  place.before.head?.any (Category.word.contains asciiOnly)

def wordAfter (place : Place) (asciiOnly : Bool) : Bool :=
  place.rest.head?.any (Category.word.contains asciiOnly)

def satisfies (place : Place) : Condition → Bool
  | .textStart => place.before.isEmpty
  | .textEnd => place.rest.isEmpty
  | .finalLineEnd => place.rest.isEmpty || place.rest == ['\n']
  | .lineStart => place.before.isEmpty || place.before.head? == some '\n'
  | .lineEnd => place.rest.isEmpty || place.rest.head? == some '\n'
  | .boundary negated asciiOnly =>
    !(place.before.isEmpty && place.rest.isEmpty) &&
      (place.wordBefore asciiOnly != place.wordAfter asciiOnly) != negated

/-- Pass over `t` if it comes next, letters compared in their folded form. -/
def skipText? (folding : Folding) : Text → Place → Option Place
  | [], place => some place
  | c :: t, place =>
    match place.rest with
    | d :: rest =>
      if folding.lower c == folding.lower d then skipText? folding t (place.next d rest) else none
    | [] => none

end Place

/-- What has to follow: the place where a match of it ends, `none` if there is no match. -/
abbrev Follow := Place → Option Place

/-- One body after the other `n` times. -/
def times (body : Follow → Follow) : Nat → Follow → Follow
  | 0, follow => follow
  | n + 1, follow => body (times body n follow)

/-- More rounds of a body, up to `limit` of them. A round that passes over nothing is the last.
Every other round leaves fewer characters, so as many rounds as characters are enough. -/
def moreRounds (greedy : Bool) (body : Follow → Follow) (follow : Follow) :
    Nat → Option Nat → Follow
  | 0, _, place => follow place
  | fuel + 1, limit, place =>
    if limit = some 0 then follow place
    else
      let round := fun (_ : Unit) => body (fun after =>
        if after.pos = place.pos then follow after
        else moreRounds greedy body follow fuel (limit.map (· - 1)) after) place
      if greedy then
        match round () with
        | some done => some done
        | none => follow place
      else
        match follow place with
        | some done => some done
        | none => round ()

/-- Rounds that are never taken back, until the body fails or passes over nothing. -/
def settledRounds (body : Follow → Follow) : Nat → Option Nat → Place → Place
  | 0, _, place => place
  | fuel + 1, limit, place =>
    if limit = some 0 then place
    else match body some place with
      | none => place
      | some after =>
        if after.pos = place.pos then after
        else settledRounds body fuel (limit.map (· - 1)) after

/-- Exactly `n` rounds that are never taken back. -/
def settledTimes (body : Follow → Follow) : Nat → Follow
  | 0, place => some place
  | n + 1, place => (body some place).bind (settledTimes body n)

def Node.run : Node → Follow → Follow
  | .empty, follow, place => follow place
  | .char set, follow, place =>
    match place.rest with
    | c :: rest => if set.contains c then follow (place.next c rest) else none
    | [] => none
  | .condition cond, follow, place => if place.satisfies cond then follow place else none
  | .seq first second, follow, place => first.run (second.run follow) place
  | .choice first second, follow, place =>
    match first.run follow place with
    | some done => some done
    | none => second.run follow place
  | .group index body, follow, place =>
    body.run (fun after => follow (after.mark (2 * index + 1))) (place.mark (2 * index))
  | .loop .possessive min max body, follow, place =>
    (settledTimes body.run min place).bind fun after =>
      follow (settledRounds body.run (after.rest.length + 1) (max.map (· - min)) after)
  | .loop greed min max body, follow, place =>
    times body.run min (fun after =>
      moreRounds (greed == .greedy) body.run follow (after.rest.length + 1) (max.map (· - min))
        after) place
  | .atomic body, follow, place => (body.run some place).bind follow
  | .ahead negated body, follow, place =>
    match body.run some place, negated with
    | some after, false => follow { place with marks := after.marks }
    | none, true => follow place
    | _, _ => none
  | .behind negated width body, follow, place =>
    match (place.back? width).bind (body.run some), negated with
    | some after, false => follow { place with marks := after.marks }
    | none, true => follow place
    | _, _ => none
  | .again index folding, follow, place =>
    match place.group? index with
    | some range => (place.skipText? folding (place.textOf range)).bind follow
    | none => none
  | .ifGroup index yes no, follow, place =>
    if (place.group? index).isSome then yes.run follow place else no.run follow place

end Pattern

/-- Where a pattern matches, with the text of its first group if that took part. -/
structure Pattern.Match where
  start : Nat
  stop : Nat
  group : Option (Nat × Nat)
  deriving DecidableEq, Repr

namespace Pattern

def Match.of (start : Nat) (after : Place) : Match := ⟨start, after.pos, after.group? 1⟩

/-- The match that starts at column `start` of the window. -/
def match? (pattern : Pattern) (line : Text) (start stop : Nat) : Option Match :=
  (pattern.node.run some (.enter line start stop)).map (.of start)

/-- The match that takes the whole window. -/
def fullMatch? (pattern : Pattern) (line : Text) (start stop : Nat) : Option Match :=
  let atEnd : Follow := fun after => if after.rest.isEmpty then some after else none
  (pattern.node.run atEnd (.enter line start stop)).map (.of start)

/-- The first match from `place` on and the place after it. When `advance` is set, a match that
starts at `place` must not be empty. -/
def searchFrom (pattern : Pattern) (advance : Bool) (pos : Nat) (before : Text) :
    Text → Option (Match × Place)
  | [] => attempt advance pos ⟨pos, before, [], []⟩
  | c :: rest =>
    match attempt advance pos ⟨pos, before, c :: rest, []⟩ with
    | some found => some found
    | none => searchFrom pattern false (pos + 1) (c :: before) rest
where
  attempt (advance : Bool) (pos : Nat) (place : Place) : Option (Match × Place) :=
    (pattern.node.run (fun after => if advance ∧ after.pos = pos then none else some after)
      place).map fun after => (.of pos after, after)

/-- The matches from a place on. An empty match is followed by no other empty match there, so
twice as many steps as characters are enough. -/
def matchesFrom (pattern : Pattern) : Nat → Bool → Place → List Match
  | 0, _, _ => []
  | fuel + 1, advance, place =>
    match pattern.searchFrom advance place.pos place.before place.rest with
    | none => []
    | some (found, after) =>
      found :: pattern.matchesFrom fuel (found.start == found.stop) after

/-- All matches in a window from left to right; none overlaps the one before. -/
def findAll (pattern : Pattern) (line : Text) (start stop : Nat) : List Match :=
  if start ≤ stop then
    let place := Place.enter line start stop
    pattern.matchesFrom (2 * place.rest.length + 2) false place
  else []

end Pattern

end TodoTracker
