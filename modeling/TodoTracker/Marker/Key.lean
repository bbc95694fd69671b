import TodoTracker.Marker.Attribute
import TodoTracker.Pattern.Parser

/-!
# Ticket keys

A key is what a ticket pattern matches: its first group if it has one that took part, else the
whole match. A marker can carry its key in three written forms: as the ticket attribute, in
parentheses right after the signal word, or bare as the first word after it.
-/

set_option autoImplicit false

namespace TodoTracker

inductive KeyForm
  | paren
  | bracket
  | bare
  deriving DecidableEq, Repr

def KeyForm.text : KeyForm → Text
  | .paren => "paren".toList
  | .bracket => "attribute".toList
  | .bare => "bare".toList

/-- Whether the form is one that is written on purpose, and not free text. -/
def KeyForm.isWritten : KeyForm → Bool
  | .bare => false
  | _ => true

/-- A key in a line. -/
structure FoundKey where
  key : Text
  start : Nat
  stop : Nat
  deriving DecidableEq, Repr

/-- A key in one of its forms, with the columns of the whole form. -/
structure CarriedKey where
  key : Text
  start : Nat
  stop : Nat
  form : KeyForm
  formStart : Nat
  formStop : Nat
  deriving DecidableEq, Repr

namespace FoundKey

def ofMatch (pattern : Pattern) (line : Text) (found : Pattern.Match) : FoundKey :=
  let (start, stop) :=
    if pattern.groupCount = 0 then (found.start, found.stop)
    else found.group.getD (found.start, found.stop)
  ⟨Text.slice line start stop, start, stop⟩

/-- Take a key unless it is empty or one that starts at the same column was taken before. -/
def insert (keys : List FoundKey) (key : FoundKey) : List FoundKey :=
  if key.key.isEmpty || keys.any (·.start == key.start) then keys else keys ++ [key]

/-- The keys in a window of a line by their columns. Where two patterns find a key at one column,
that of the earlier pattern counts. -/
def findAll (patterns : List Pattern) (line : Text) (start stop : Nat) : List FoundKey :=
  let all := patterns.flatMap fun pattern =>
    (pattern.findAll line start stop).map (ofMatch pattern line)
  (all.foldl insert []).mergeSort fun a b => a.start ≤ b.start

/-- The key of the first ticket attribute in a line, else the first key in it. -/
def extract? (patterns : List Pattern) (line : Text) : Option Text :=
  match TicketAttribute.find? line with
  | some ticket => some ticket.key
  | none => (findAll patterns line 0 line.length).head?.map key

end FoundKey

/-- A word in parentheses at the start of a text, after blanks. -/
structure Parenthesis where
  stop : Nat
  wordStart : Nat
  wordStop : Nat
  deriving DecidableEq, Repr

namespace Parenthesis

def isInner (c : Char) : Bool := c != '(' && c != ')' && !Text.isBlank c

def read? (t : Text) : Option Parenthesis :=
  match t.dropWhile Text.isBlank with
  | '(' :: rest =>
    let content := rest.dropWhile Text.isBlank
    let word := content.takeWhile isInner
    match (content.drop word.length).dropWhile Text.isBlank with
    | ')' :: after =>
      if word.isEmpty then none
      else
        let wordStart := t.length - content.length
        some ⟨t.length - after.length, wordStart, wordStart + word.length⟩
    | _ => none
  | _ => none

end Parenthesis

namespace CarriedKey

/-- Characters that may stand between a signal word and a bare key. -/
def isLead (c : Char) : Bool := c == ' ' || c == '\t' || c == ':' || c == '-'

def ofTicket (offset : Nat) (ticket : TicketAttribute) : CarriedKey :=
  ⟨ticket.key, offset + ticket.keyStart, offset + ticket.keyStop, .bracket,
    offset + ticket.start, offset + ticket.stop⟩

/-- A key in parentheses at the start of the window. -/
def paren? (patterns : List Pattern) (line : Text) (start : Nat) (segment : Text) :
    Option CarriedKey :=
  (Parenthesis.read? segment).bind fun paren =>
    patterns.findSome? fun pattern =>
      (pattern.fullMatch? line (start + paren.wordStart) (start + paren.wordStop)).map
        fun found =>
          let key := FoundKey.ofMatch pattern line found
          ⟨key.key, key.start, key.stop, .paren, start, start + paren.stop⟩

/-- A key right after leading punctuation. -/
def bare? (patterns : List Pattern) (line : Text) (start stop : Nat) (segment : Text) :
    Option CarriedKey :=
  let lead := start + (segment.takeWhile isLead).length
  patterns.findSome? fun pattern =>
    match pattern.match? line lead stop with
    | some found =>
      if lead < found.stop then
        let key := FoundKey.ofMatch pattern line found
        some ⟨key.key, key.start, key.stop, .bare, found.start, found.stop⟩
      else none
    | none => none

/-- The key that is written for a marker whose text is in the columns from `start` to `stop`. -/
def inSegment? (patterns : List Pattern) (line : Text) (start stop : Nat) : Option CarriedKey :=
  let segment := Text.slice line start stop
  match TicketAttribute.find? segment with
  | some ticket => some (ofTicket start ticket)
  | none =>
    match paren? patterns line start segment with
    | some found => some found
    | none => bare? patterns line start stop segment

/-- Whether the search for a key between two columns only looks at columns of the line, as it does
when both are in the line. Past the end, leading punctuation must stop before the line does. -/
def windowFits (patterns : List Pattern) (line : Text) (start stop : Nat) : Bool :=
  let segment := Text.slice line start stop
  let lead := start + (segment.takeWhile isLead).length
  stop ≤ lead || lead < line.length || (TicketAttribute.find? segment).isSome ||
    (paren? patterns line start segment).isSome

end CarriedKey

end TodoTracker
