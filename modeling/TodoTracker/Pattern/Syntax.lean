import TodoTracker.Text.Case

/-!
# Ticket patterns

A ticket pattern is a tree. Its leaves are sets of characters and conditions on a place in the
text; its nodes put patterns one after the other, offer a choice, repeat, and record what a group
matched. Whether a place satisfies a leaf depends only on the characters around it.
-/

set_option autoImplicit false

namespace TodoTracker

namespace Pattern

/-- How the characters of a set are compared. -/
inductive Folding
  | exact
  /-- ASCII letters match their other case. -/
  | ascii
  /-- All letters match every letter that shares a case form with them. -/
  | unicode
  deriving DecidableEq, Repr

/-- The characters that count as equal to `c`. -/
def Folding.variants : Folding → Char → List Char
  | .exact, c => [c]
  | .ascii, c =>
    if Text.isAsciiUpper c then [c, Char.ofNat (c.toNat + 32)]
    else if Text.isAsciiLower c then [c, Char.ofNat (c.toNat - 32)]
    else [c]
  | .unicode, c => Text.caseVariants c

/-- The lower case form in which repeated text is compared. -/
def Folding.lower : Folding → Char → Char
  | .exact, c => c
  | .ascii, c => if Text.isAscii c then Text.simpleLower c else c
  | .unicode, c => Text.simpleLower c

inductive Category
  | digit
  | space
  | word
  deriving DecidableEq, Repr

/-- A space of ASCII, without the separators at 28 to 31. -/
def isAsciiSpace (c : Char) : Bool := (9 ≤ c.toNat && c.toNat ≤ 13) || c == ' '

def Category.contains (category : Category) (asciiOnly : Bool) (c : Char) : Bool :=
  match category, asciiOnly with
  | .digit, true => Text.isAsciiDigit c
  | .digit, false => Text.isDigit c
  | .space, true => isAsciiSpace c
  | .space, false => Text.isBlank c
  | .word, true => Text.isAsciiWord c
  | .word, false => Text.isWord c

inductive ClassItem
  | one (point : Nat)
  | range (low high : Nat)
  | category (kind : Category) (negated asciiOnly : Bool)
  deriving DecidableEq, Repr

def ClassItem.contains (folding : Folding) (c : Char) : ClassItem → Bool
  | .one point => (folding.variants c).any fun d => d.toNat == point
  | .range low high => (folding.variants c).any fun d => low ≤ d.toNat && d.toNat ≤ high
  | .category kind negated asciiOnly => kind.contains asciiOnly (folding.lower c) != negated

/-- A set of characters: some items, or all characters but those of the items. -/
structure CharClass where
  items : List ClassItem
  negated : Bool
  folding : Folding
  deriving DecidableEq, Repr

def CharClass.contains (set : CharClass) (c : Char) : Bool :=
  set.items.any (·.contains set.folding c) != set.negated

/-- The set without any character missing. -/
def CharClass.all : CharClass := ⟨[], true, .exact⟩

/-- Every character but the line feed. -/
def CharClass.inLine : CharClass := ⟨[.one 10], true, .exact⟩

/-- Conditions on a place between two characters. -/
inductive Condition
  | textStart
  | textEnd
  /-- The end, or the place before a line feed that is the last character. -/
  | finalLineEnd
  | lineStart
  | lineEnd
  | boundary (negated asciiOnly : Bool)
  deriving DecidableEq, Repr

inductive Greed
  | greedy
  | lazy
  /-- Takes as much as it can get and gives nothing back. -/
  | possessive
  deriving DecidableEq, Repr

inductive Node
  | empty
  | char (set : CharClass)
  | condition (cond : Condition)
  | seq (first second : Node)
  | choice (first second : Node)
  | group (index : Nat) (body : Node)
  /-- At least `min` times, and at most `max` times if there is a limit. -/
  | loop (greed : Greed) (min : Nat) (max : Option Nat) (body : Node)
  | atomic (body : Node)
  | ahead (negated : Bool) (body : Node)
  | behind (negated : Bool) (width : Nat) (body : Node)
  | again (index : Nat) (folding : Folding)
  | ifGroup (index : Nat) (yes no : Node)
  deriving Repr

def Node.ofList : List Node → Node
  | [] => .empty
  | [node] => node
  | node :: nodes => .seq node (ofList nodes)

def Node.ofChoices : List Node → Node
  | [] => .empty
  | [node] => node
  | node :: nodes => .choice node (ofChoices nodes)

end Pattern

/-- A pattern that is ready to match, with the number of its groups. -/
structure Pattern where
  node : Pattern.Node
  groupCount : Nat
  deriving Repr

end TodoTracker
