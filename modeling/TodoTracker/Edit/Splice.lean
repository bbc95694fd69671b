import TodoTracker.Anchor.Locate
import TodoTracker.Marker.Key

/-!
# Splices

A splice replaces the columns of a line from `start` to `stop` by a text. The splices of a line are
applied together and must not overlap; splices at one place stay in the order of the list. The
edits of a marker are splices: its key is inserted right after the signal word, a stale key or an
attribute block is removed with one blank before it.
-/

set_option autoImplicit false

namespace TodoTracker

structure Splice where
  start : Nat
  stop : Nat
  text : Text
  deriving DecidableEq, Repr

/-- Two splices of which the second starts before the first stops. -/
structure Overlap where
  left : Splice
  right : Splice
  deriving DecidableEq, Repr

def Overlap.message (o : Overlap) : Text :=
  let columns := fun (s : Splice) => Text.ofNat s.start ++ '-' :: Text.ofNat s.stop
  "overlapping edits at columns ".toList ++ columns o.left ++ " and ".toList ++ columns o.right

namespace Splice

def order (a b : Splice) : Bool := a.start < b.start || (a.start == b.start && a.stop ≤ b.stop)

/-- The first two neighbours that overlap. -/
def overlap? : List Splice → Option Overlap
  | a :: b :: rest => if b.start < a.stop then some ⟨a, b⟩ else overlap? (b :: rest)
  | _ => none

def apply (splice : Splice) (line : Text) : Text :=
  line.take splice.start ++ splice.text ++ line.drop splice.stop

/-- Apply splices that are in order; the last one first, so that columns stay valid. -/
def applyOrdered (line : Text) (splices : List Splice) : Text := splices.foldr apply line

/-- The line with all splices applied. -/
def applyAll (line : Text) (splices : List Splice) : Except Overlap Text :=
  let ordered := splices.mergeSort order
  match overlap? ordered with
  | some overlap => .error overlap
  | none => .ok (applyOrdered line ordered)

/-- The place in a format where the key goes. -/
def keyMark : Text := "\x7bkey\x7d".toList

/-- The written form of a key. -/
def keyText (key format : Text) : Text := Text.replaceAll format keyMark key

/-- The splice that writes a key after the signal word, unless the line holds the key already. -/
def keyInsertion? (line : Text) (signalStop : Nat) (key format : Text) : Option Splice :=
  if KeyToken.occursIn line key then none
  else some ⟨signalStop, signalStop, keyText key format⟩

def isGap (c : Char) : Bool := c == ' ' || c == '\t'

/-- Remove the columns from `start` to `stop`, and the blank before them if a blank or the
limit follows. -/
def columnRemoval (text : Text) (start stop limit : Nat) : Splice :=
  let gapBefore := 0 < start && (text[start - 1]?).any isGap
  let gapAfter := limit ≤ stop || (text[stop]?).any isGap
  ⟨if gapBefore && gapAfter then start - 1 else start, stop, []⟩

/-- Whether the columns that decide about the blank before a removal are in the text, as they are
for a removal inside of it. -/
def removalFits (text : Text) (start stop limit : Nat) : Bool :=
  start == 0 || (start ≤ text.length &&
    (stop < text.length || limit ≤ stop || !(text[start - 1]?).any isGap))

/-- Remove the written form of a key. -/
def keyRemoval (line : Text) (found : CarriedKey) (limit : Nat) : Splice :=
  columnRemoval line found.formStart found.formStop limit

/-- Remove the attribute blocks between two columns. -/
def attributeRemovals (line : Text) (start stop : Nat) : List Splice :=
  (Block.attributeBlocks (Text.slice line start stop)).map fun block =>
    columnRemoval line (start + block.start) (start + block.stop) stop

def attributeRemovalsFit (line : Text) (start stop : Nat) : Bool :=
  (Block.attributeBlocks (Text.slice line start stop)).all fun block =>
    removalFits line (start + block.start) (start + block.stop) stop

end Splice

end TodoTracker
