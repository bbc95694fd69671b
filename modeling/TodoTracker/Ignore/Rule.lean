import TodoTracker.Failure
import TodoTracker.Pattern.Parser

/-!
# Ignore rules

A rule is one line of an ignore file. It is a path with wildcards, or such a path after an
exclamation mark, which takes files back in. A rule is turned into a pattern over the path of a
file, in which a slash after the matched part may be recorded by a group: a match that has one
matches a directory on the way to the file, and such a match is weaker than one of the file itself.
Of the rules of a layer the last strong match decides, else the last weak one.
-/

set_option autoImplicit false

namespace TodoTracker

structure IgnoreRule where
  /-- Whether a match means that the file is ignored. -/
  ignores : Bool
  pattern : Pattern

namespace IgnoreRule

open Pattern

/-- Any number of path names. -/
def anyPath : Text := ['*', '*']

def slash : Node := .char ⟨[.one 47], false, .exact⟩

def notSlash : Node := .char ⟨[.one 47], true, .exact⟩

def anyChar : Node := .char .inLine

/-- The slash after a directory that is matched. -/
def directoryMark : Node := .group 1 slash

def anyRun : Node := .loop .greedy 1 none anyChar

def optional (node : Node) : Node := .loop .greedy 0 (some 1) node

/-- The end of the path or of the name of a directory on it. -/
def nameEnd : Node := .choice directoryMark (.condition .finalLineEnd)

/-- The length of the set that follows an opening bracket, with its closing bracket. A bracket right
after the start or the negation belongs to the set. -/
def setLength? (rest : Text) : Option Nat :=
  let negation := if rest.head? = some '!' || rest.head? = some '^' then 1 else 0
  let first := if (rest.drop negation).head? = some ']' then 1 else 0
  let start := negation + first
  (Text.indexOf? [']'] (rest.drop start)).map (start + · + 1)

/-- A part of a pattern with the length of its written form. A set may be one that cannot be
read. -/
structure Part where
  node : Except PatternError Node
  width : Nat

namespace Part

def of (node : Node) (width : Nat) : Part := ⟨.ok node, width⟩

/-- The nodes of parts, the first of them written at column `place`. -/
def nodes (place : Nat) : List Part → Except PatternError (List Node)
  | [] => .ok []
  | part :: rest =>
    match part.node with
    | .ok node => (node :: ·) <$> nodes (place + part.width) rest
    | .error e => .error { e with pos := e.pos.map (place + ·) }

def slash : Part := of IgnoreRule.slash 1

def textStart : Part := of (.condition .textStart) 1

/-- A name that may be anything but must not be empty. -/
def anyName : Part := of (.loop .greedy 1 none notSlash) 5

/-- A character that stands for itself; the characters of the pattern language are written with a
backslash. -/
def literal (c : Char) : Part :=
  let special := "()[]\x7b\x7d?*+-|^$\\.&~# \t\n\r\x0b\x0c".toList
  of (.char ⟨[.one c.toNat], false, .exact⟩) (if special.contains c then 2 else 1)

/-- The set whose text after the opening bracket is given, with its closing bracket. -/
def set (text : Text) : Part :=
  let (negated, items) := match text with
    | '!' :: items => (true, items)
    | '^' :: items => (true, items)
    | items => (false, items)
  let source := '[' :: (if negated then ['^'] else []) ++
    items.flatMap fun c => if c = '\\' then ['\\', '\\'] else [c]
  ⟨Pattern.node <$> Pattern.parse source, source.length⟩

end Part

/-- What makes a name no pattern. -/
inductive GlobFlaw
  /-- A backslash that nothing follows. -/
  | escape
  /-- A bracket that is never closed. -/
  | bracket
  deriving DecidableEq, Repr

/-- The pattern of one name with wildcards. The first `skip` characters are done with. -/
def globFrom : Nat → Text → Except GlobFlaw (List Part)
  | _, [] => .ok []
  | skip + 1, _ :: rest => globFrom skip rest
  | 0, c :: rest =>
    if c = '\\' then
      match rest with
      | [] => .error .escape
      | d :: _ => (Part.literal d :: ·) <$> globFrom 1 rest
    else if c = '*' then (Part.of (.loop .greedy 0 none notSlash) 5 :: ·) <$> globFrom 0 rest
    else if c = '?' then (Part.of notSlash 4 :: ·) <$> globFrom 0 rest
    else if c = '[' then
      match setLength? rest with
      | none => .error .bracket
      | some size => (Part.set (rest.take size) :: ·) <$> globFrom size rest
    else (Part.literal c :: ·) <$> globFrom 0 rest

def nameParts (name : Text) : Except GlobFlaw (List Part) :=
  if name = ['*'] then .ok [.anyName] else globFrom 0 name

/-- The pattern of names from the one with number `index` on. -/
def namesFrom (forDirectory : Bool) (index : Nat) (needsSlash : Bool) :
    List Text → Except GlobFlaw (List Part)
  | [] => .ok []
  | name :: rest =>
    if name = anyPath then
      if index = 0 then
        ([Part.textStart, .of (optional (.seq anyRun slash)) 8] ++ ·) <$>
          namesFrom forDirectory (index + 1) needsSlash rest
      else if rest.isEmpty then
        .ok [if forDirectory then .of directoryMark 1 else .slash]
      else
        (Part.of (optional (.seq slash anyRun)) 8 :: ·) <$>
          namesFrom forDirectory (index + 1) true rest
    else do
      let start := if index = 0 then [Part.textStart] else []
      let separator := if needsSlash then [Part.slash] else []
      let parts ← nameParts name
      let stop := if rest.isEmpty then [Part.of nameEnd 1] else []
      let others ← namesFrom forDirectory (index + 1) true rest
      return start ++ separator ++ parts ++ stop ++ others

/-- The names of a rule as they are matched: a rule without a slash inside matches at any depth, and
a rule that ends with a slash matches what is below. -/
def arrange (names : List Text) : List Text :=
  let placed := match names with
    | [] :: rest => rest
    | [name] => if name = anyPath then [name] else [anyPath, name]
    | [name, []] => if name = anyPath then [name, []] else [anyPath, name, []]
    | names => names
  if placed.getLast? = some [] then placed.dropLast ++ [anyPath] else placed

/-- One of several `**` in a row. -/
def collapse : List Text → List Text
  | a :: b :: rest =>
    if a = anyPath ∧ b = anyPath then collapse (b :: rest) else a :: collapse (b :: rest)
  | names => names

/-- The pattern of a rule whose names are separated, some of them empty. -/
def partsOf (names : List Text) : Except GlobFlaw (List Part) :=
  let forDirectory := names.getLast? = some []
  let names := collapse (arrange names)
  let below := Part.of (if forDirectory then directoryMark else slash) 1
  let anything := Part.of anyChar 1
  if names = [anyPath] then .ok [if forDirectory then below else anything]
  else if names = [anyPath, ['*']] then .ok [anything]
  else if names = [anyPath, ['*'], anyPath] then .ok [below]
  else namesFrom forDirectory 0 false names

/-- The rule that a line gives, if it gives one: comments and lines that match nothing give none. -/
def read (line : Text) : Except Failure (Option IgnoreRule) :=
  let text := if ['\\', ' '].isSuffixOf line then line else Text.trimEnd line
  if text.isEmpty || text.head? = some '#' || text = ['/'] then .ok none
  else
    let (ignores, body) := match text with
      | '!' :: body => (false, body)
      | body => (true, body)
    let names := Text.splitOn '/' body
    if arrange names = [] then .error (.ignoreRule line)
    else match partsOf names with
      | .error .escape => .error (.ignoreRule line)
      | .error .bracket => .ok none
      | .ok parts =>
        match Part.nodes 0 parts with
        | .ok nodes => .ok (some ⟨ignores, ⟨.ofList nodes, 1⟩⟩)
        | .error e => .error (.ignorePattern e)

/-- How strongly a rule matches a path: 2 for the path itself, 1 for a directory on it, 0 for no
match. -/
def strength (rule : IgnoreRule) (path : Text) : Nat :=
  match rule.pattern.findAll path 0 path.length with
  | [] => 0
  | found :: _ => if found.group.isSome then 1 else 2

/-- What the rules say, given in reverse: the first strong match decides, else the first weak. -/
def decide (path : Text) (weak : Option Bool) : List IgnoreRule → Bool
  | [] => weak.getD false
  | rule :: rest =>
    match rule.strength path with
    | 0 => decide path weak rest
    | 1 => decide path (weak.or (some rule.ignores)) rest
    | _ => rule.ignores

/-- Whether rules ignore a path, given relative to the directory of the rules. -/
def ignored (rules : List IgnoreRule) (path : Text) : Bool :=
  let path := match path with
    | '/' :: rest => rest
    | '.' :: '/' :: rest => rest
    | path => path
  decide path none rules.reverse

end IgnoreRule

end TodoTracker
