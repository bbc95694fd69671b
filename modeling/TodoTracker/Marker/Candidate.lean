import TodoTracker.Comment.Span
import TodoTracker.Marker.Key
import TodoTracker.Marker.SignalWord

/-!
# Marker candidates

A candidate is either a signal word in a comment, with the text up to the next signal word of the
comment or its end, or the mention of a key before the first signal word of a comment. The
candidates of a text come in the order of their lines and columns.
-/

set_option autoImplicit false

namespace TodoTracker

structure Candidate where
  /-- The number of the line, counted from 1. -/
  line : Nat
  column : Nat
  text : Text
  span : Span
  /-- The signal word, none for a mention. -/
  signal : Option Text
  signalStop : Nat
  segmentStop : Nat
  carried : Option CarriedKey
  attributes : Attributes
  title : Text
  deriving DecidableEq, Repr

namespace Candidate

/-- The key that is written for the marker. -/
def key (candidate : Candidate) : Option Text := candidate.carried.map CarriedKey.key

def isMention (candidate : Candidate) : Bool := candidate.signal.isNone

/-- The text of the marker after its signal word. -/
def segment (candidate : Candidate) : Text :=
  Text.slice candidate.text candidate.signalStop candidate.segmentStop

/-- What is left of a segment that starts at column `start` without its key and attributes, with
single blanks between the words. -/
def titleOf (segment : Text) (start : Nat) (carried : Option CarriedKey) : Text :=
  let rest := match carried with
    | none => segment
    | some found =>
      segment.take (found.formStart - start) ++ segment.drop (found.formStop - start)
  let trimmed := Text.trim (Attributes.strip rest)
  Text.squeeze (Text.trim (trimmed.dropWhile fun c => c == ':' || c == '-'))

def isTitleEdge (c : Char) : Bool := c == ' ' || c == ':' || c == '-'

/-- A text without attributes, single blanks between its words, punctuation off its ends. -/
def plainTitle (t : Text) : Text := Text.trimWhen isTitleEdge (Text.squeeze (Attributes.strip t))

/-- The title of the task that is created for a marker in the file `file`. A bare key was no live
key then and belongs to the title. A marker without text takes the whole comment, and a comment
with nothing but the signal word the place where it stands. -/
def taskTitle (candidate : Candidate) (file : Text) : Text :=
  let withKey :=
    if candidate.carried.any (·.form == .bare) then plainTitle candidate.segment else []
  if !withKey.isEmpty then withKey
  else if !candidate.title.isEmpty then candidate.title
  else
    let body := Text.slice candidate.text candidate.span.bodyStart candidate.span.bodyStop
    let whole := plainTitle body
    if !whole.isEmpty && some whole != candidate.signal then whole
    else
      let signal := match candidate.signal with
        | some word => if word.isEmpty then "TODO".toList else word
        | none => "TODO".toList
      signal ++ " in ".toList ++ file ++ ':' :: Text.ofNat candidate.line

end Candidate

/-- What to look for in comments. -/
structure Scanner where
  /-- Signal words in the order in which they are tried. -/
  words : List Text
  patterns : List Pattern
  /-- Whether keys without a signal word count. -/
  mentions : Bool

namespace Scanner

def make (words : List Text) (patterns : List Pattern) (mentions : Bool) : Scanner :=
  ⟨Signal.prepare words, patterns, mentions⟩

def ofSignal (scanner : Scanner) (number : Nat) (line : Text) (span : Span) (signal : Signal)
    (segmentStop : Nat) : Candidate :=
  let segment := Text.slice line signal.stop segmentStop
  let carried := CarriedKey.inSegment? scanner.patterns line signal.stop segmentStop
  { line := number
    column := signal.start
    text := line
    span
    signal := some signal.word
    signalStop := signal.stop
    segmentStop
    carried
    attributes := Attributes.parse segment
    title := Candidate.titleOf segment signal.stop carried }

/-- The candidates of signal words, each with the text up to the next one. -/
def ofSignals (scanner : Scanner) (number : Nat) (line : Text) (span : Span) :
    List Signal → List Candidate
  | [] => []
  | signal :: rest =>
    scanner.ofSignal number line span signal ((rest.head?.map Signal.start).getD span.bodyStop) ::
      scanner.ofSignals number line span rest

def ofMention (number : Nat) (line : Text) (span : Span) (stop : Nat) (found : FoundKey) :
    Candidate where
  line := number
  column := found.start
  text := line
  span
  signal := none
  signalStop := found.start
  segmentStop := stop
  carried := some ⟨found.key, found.start, found.stop, .bare, found.start, found.stop⟩
  attributes := []
  title := []

/-- The candidates of one comment: the signal words, then the mentions in front of them. -/
def scanSpan (scanner : Scanner) (number : Nat) (line : Text) (span : Span) : List Candidate :=
  let signals := Signal.findAll scanner.words line span.bodyStart span.bodyStop
  let mentionStop := (signals.head?.map Signal.start).getD span.bodyStop
  let mentions :=
    if scanner.mentions then
      (FoundKey.findAll scanner.patterns line span.bodyStart mentionStop).map
        (ofMention number line span mentionStop)
    else []
  scanner.ofSignals number line span signals ++ mentions

def scanLine (scanner : Scanner) (number : Nat) (line : Text) (spans : List Span) :
    List Candidate :=
  (spans.flatMap (scanner.scanSpan number line)).mergeSort fun a b => a.column ≤ b.column

def scanFrom (scanner : Scanner) (number : Nat) : List (Text × List Span) → List Candidate
  | [] => []
  | (line, spans) :: rest =>
    scanner.scanLine number line spans ++ scanner.scanFrom (number + 1) rest

/-- The candidates of a text, given by its lines. -/
def scan (scanner : Scanner) (lines : List Text) (grammar : Grammar) : List Candidate :=
  scanner.scanFrom 1 (lines.zip (grammar.spans lines))

end Scanner

end TodoTracker
