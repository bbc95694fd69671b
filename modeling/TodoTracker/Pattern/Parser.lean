import TodoTracker.Pattern.Escape
import TodoTracker.Pattern.Matcher

/-!
# Patterns from their written form

The grammar in short: choices of sequences of items, where an item is a character, a set, a
condition, a group or a look around, and may be repeated. Flags in a group hold for the group;
flags at the very start hold for the whole pattern.
-/

set_option autoImplicit false

namespace TodoTracker.Pattern

inductive ItemKind
  | condition
  | loop
  | other
  deriving DecidableEq, Repr

structure Item where
  node : Node
  kind : ItemKind
  width : Width

namespace Item

def char (set : CharClass) : Item := ⟨.char set, .other, .one⟩

def condition (c : Condition) : Item := ⟨.condition c, .condition, .zero⟩

/-- Items one after the other. -/
def sequence (items : List Item) : Item :=
  ⟨.ofList (items.map node), .other, items.foldl (fun w item => w.add item.width) .zero⟩

/-- One of several items; there is at least one. -/
def choices (items : List Item) : Item :=
  ⟨.ofChoices (items.map node), .other,
    (items.tail.map width).foldl Width.join ((items.head?.map width).getD .zero)⟩

end Item

/-- A name that a group can have: it starts with a letter or an underscore, and word characters
follow. -/
def isName : Text → Bool
  | [] => false
  | c :: rest => Text.isWord c && !Text.isDigit c && rest.all Text.isWord

/-- The greatest number of groups that a condition can ask for. -/
def groupLimit : Nat := 1073741823

def repeatLimit : Nat := 4294967295

/-- Remember the first place that asks for a group. -/
def ReaderState.ask (s : ReaderState) (group place : Nat) : ReaderState :=
  if s.questions.any (fun question => question.1 == group) then s
  else { s with questions := s.questions ++ [(group, place)] }

namespace Reader

def pointItem (n : Nat) : Reader Item := do
  return .char ⟨[.one n], false, (← get).flags.folding⟩

def categoryItem (category : Category) (negated : Bool) : Reader Item := do
  let flags := (← get).flags
  return .char ⟨[.category category negated flags.asciiOnly], false, flags.folding⟩

/-- A reference back to a group, or an octal escape of three digits. -/
def digitEscape (c : Char) : Reader Item := do
  let second ← takeSome Text.isAsciiDigit 1
  let third ←
    if isOctalDigit c && !second.isEmpty && second.all isOctalDigit then takeSome isOctalDigit 1
    else pure []
  let escape := '\\' :: c :: (second ++ third)
  if !third.isEmpty then pointItem (← octalEscape escape)
  else
    let group := Text.digitsValue (escape.drop 1)
    let s ← get
    if group ≤ s.groups.length then
      return ⟨.again group s.flags.folding, .other, ← groupWidth group escape.length⟩
    else fail (.unknownGroup group) (escape.length - 1)

/-- An escape outside of a set. -/
def escapeItem (c : Char) : Reader Item := do
  if let some (category, negated) := category? c then return ← categoryItem category negated
  if let some condition := condition? (← get).flags.asciiOnly c then return .condition condition
  if let some n := control? c then return ← pointItem n
  if let some n ← codeEscape? c then return ← pointItem n
  if c = '0' then
    let digits ← takeSome isOctalDigit 2
    return ← pointItem (readOctal digits)
  if Text.isAsciiDigit c then return ← digitEscape c
  pointItem (← literalEscape c)

def setAtom : Token → Reader Atom
  | .plain c => return .point c.toNat
  | .escaped c => setEscape c

def Atom.item (asciiOnly : Bool) : Atom → ClassItem
  | .point n => .one n
  | .category category negated => .category category negated asciiOnly

/-- The items of a set whose opening bracket is at column `here`. -/
def setItems (here : Nat) : Nat → List ClassItem → Reader (List ClassItem)
  | 0, items => return items
  | fuel + 1, items => do
    let asciiOnly := (← get).flags.asciiOnly
    match ← take with
    | none => failAt .unterminatedSet here
    | some this =>
      if this == .plain ']' && !items.isEmpty then return items
      let first ← setAtom this
      if ← accept '-' then
        match ← take with
        | none => failAt .unterminatedSet here
        | some that =>
          if that == .plain ']' then return items ++ [Atom.item asciiOnly first, .one 45]
          let second ← setAtom that
          let flaw := Flaw.badRange this.text that.text
          let offset := this.text.length + 1 + that.text.length
          match first, second with
          | .point low, .point high =>
            if high < low then fail flaw offset
            setItems here fuel (items ++ [.range low high])
          | _, _ => fail flaw offset
      else setItems here fuel (items ++ [Atom.item asciiOnly first])

/-- A set, after its opening bracket. -/
def setItem : Reader Item := do
  let here := (← pos) - 1
  let negated ← accept '^'
  let items ← setItems here ((← left) + 1) []
  return .char ⟨items, negated, (← get).flags.folding⟩

/-- The bounds of a repetition after its opening brace, if it is well formed. -/
def bounds? (here : Nat) : Reader (Option (Nat × Option Nat)) := do
  if ← nextIs '\x7d' then return none
  let before := (← get).source
  let low ← takeSome Text.isAsciiDigit (← left)
  let high ← if ← accept ',' then takeSome Text.isAsciiDigit (← left) else pure low
  if !(← accept '\x7d') then
    modify fun s => { s with source := before }
    return none
  let least := Text.digitsValue low
  if repeatLimit ≤ least then throw ⟨.repetitionTooLarge, none⟩
  if high.isEmpty then return some (least, none)
  let most := Text.digitsValue high
  if repeatLimit ≤ most then throw ⟨.repetitionTooLarge, none⟩
  if most < least then failAt .descendingRepeat here
  return some (least, some most)

/-- The sign after a repetition that says how greedy it is. -/
def takeGreed : Reader Greed := do
  if ← accept '?' then return .lazy
  else if ← accept '+' then return .possessive
  else return .greedy

/-- The last item repeated, at column `here` after the sign of repetition. -/
def repeatLast (items : List Item) (here least : Nat) (most : Option Nat) :
    Reader (List Item) := do
  match items.reverse with
  | [] => failAt .nothingToRepeat (here - 1)
  | last :: before =>
    if last.kind = .condition then failAt .nothingToRepeat (here - 1)
    if last.kind = .loop then failAt .multipleRepeat (here - 1)
    let greed ← takeGreed
    let item : Item :=
      ⟨.loop greed least most last.node, .loop, last.width.repeated least most⟩
    return (item :: before).reverse

def flagLetters : List Char := "iLmsxatu".toList

def isFlag : Token → Bool
  | .plain c => flagLetters.contains c
  | .escaped _ => false

/-- Complain about a token where a flag should be. -/
def failFlag {α : Type} (token : Token) (missing : String) : Reader α :=
  let flaw := match token with
    | .plain c =>
      if Text.isWord c && !Text.isDigit c && c != '_' then Flaw.unknownFlag
      else .missing missing.toList
    | .escaped _ => .missing missing.toList
  fail flaw token.text.length

/-- Flags that are turned on, with the character that ends them. -/
def flagsOn : Nat → Char → List Char → Reader (List Char × Char)
  | 0, c, on => return (on, c)
  | fuel + 1, c, on => do
    if c = 'L' then fail .localeFlag 0
    let on := c :: on
    if on.contains 'a' && on.contains 'u' then fail .incompatibleFlags 0
    match ← take with
    | none => fail (.missing "-, : or )".toList) 0
    | some token =>
      match token with
      | .plain d =>
        if d = ')' || d = '-' || d = ':' then return (on, d)
        else if isFlag token then flagsOn fuel d on
        else failFlag token "-, : or )"
      | .escaped _ => failFlag token "-, : or )"

/-- Flags that are turned off, up to the colon. -/
def flagsOff : Nat → Char → List Char → Reader (List Char)
  | 0, _, off => return off
  | fuel + 1, c, off => do
    if c = 'a' || c = 'u' || c = 'L' then fail .typeFlagOff 0
    let off := c :: off
    match ← take with
    | none => fail (.missing [':']) 0
    | some token =>
      match token with
      | .plain d =>
        if d = ':' then return off
        else if isFlag token then flagsOff fuel d off
        else failFlag token ":"
      | .escaped _ => failFlag token ":"

/-- Flags from their first character on: those for the whole pattern take effect at once and
answer `none`, those for a group are returned. -/
def readFlags (first : Char) : Reader (Option (List Char × List Char)) := do
  let (on, stop) ← if first = '-' then pure ([], '-') else flagsOn ((← left) + 1) first []
  if stop = ')' then
    modify fun s => { s with flags := s.flags.adjust on [] }
    return none
  if on.contains 't' then fail .globalFlagOn 1
  let off ←
    if stop = '-' then
      match ← take with
      | none => fail (.missing "flag".toList) 0
      | some (.plain c) =>
        if isFlag (.plain c) then flagsOff ((← left) + 1) c [] else failFlag (.plain c) "flag"
      | some token => failFlag token "flag"
    else pure []
  if off.contains 't' then fail .globalFlagOff 1
  if on.any off.contains then fail .flagOnAndOff 1
  return some (on, off)

/-- Skip a comment in a pattern, up to the closing parenthesis. -/
def skipComment (start : Nat) : Nat → Reader Unit
  | 0 => return
  | fuel + 1 => do
    match ← take with
    | none => failAt .unterminatedComment start
    | some token => if token == .plain ')' then return else skipComment start fuel

/-- Skip the rest of a line. -/
def skipLine : Nat → Reader Unit
  | 0 => return
  | fuel + 1 => do
    match ← take with
    | none => return
    | some token => if token == .plain '\n' then return else skipLine fuel

/-- Open a group, with a name if it has one, and return its number. -/
def openGroup (name : Option Text) : Reader Nat := do
  let s ← get
  let group := s.groups.length + 1
  if let some name := name then
    if let some earlier := Fields.get? s.names name then
      fail (.redefinedGroupName name group earlier) (name.length + 1)
  modify fun s => { s with
    groups := s.groups ++ [none]
    names := match name with
      | some name => s.names.set name group
      | none => s.names }
  return group

def closeGroup (group : Nat) (width : Width) : Reader Unit :=
  modify fun s => { s with groups := s.groups.set (group - 1) (some width) }

/-- The group that a condition asks for, by name or by number. -/
def questionGroup : Reader Nat := do
  let name ← takeUntil ')' "group name"
  let offset := name.length + 1
  let s ← get
  let group ←
    if isName name then
      match Fields.get? s.names name with
      | some group => pure group
      | none => fail (.unknownGroupName name) offset
    else match Text.readInt? name with
      | some (.ofNat 0) => fail .badGroupNumber offset
      | some (.ofNat n) =>
        if groupLimit ≤ n then fail (.unknownGroup n) offset
        let place := (← pos) - offset
        modify (·.ask n place)
        pure n
      | _ => fail (.badGroupName name) offset
  if s.behindLimit.isSome then discard <| groupWidth group 0
  return group

/-- A reference to a group by its name. -/
def namedReference : Reader Item := do
  let name ← takeUntil ')' "group name"
  if !isName name then fail (.badGroupName name) (name.length + 1)
  let s ← get
  match Fields.get? s.names name with
  | none => fail (.unknownGroupName name) (name.length + 1)
  | some group =>
    return ⟨.again group s.flags.folding, .other, ← groupWidth group (name.length + 1)⟩

def expectClose (start : Nat) : Reader Unit := do
  if !(← accept ')') then failAt .unterminatedGroup start

mutual

/-- Choices up to a closing parenthesis or the end. `top` holds outside of all groups. -/
def readChoices (top : Bool) : Nat → Reader Item
  | 0 => return .sequence []
  | fuel + 1 => do
    let first ← readItems top top [] fuel
    let others ← readOthers top fuel
    return if others.isEmpty then first else .choices (first :: others)

/-- The choices after the first. -/
def readOthers (top : Bool) : Nat → Reader (List Item)
  | 0 => return []
  | fuel + 1 => do
    if ← accept '|' then
      let item ← readItems top false [] fuel
      return item :: (← readOthers top fuel)
    else return []

/-- Items up to the end of a choice. `first` holds in the first choice outside of all groups, where
flags for the whole pattern may stand in front. -/
def readItems (top first : Bool) (items : List Item) : Nat → Reader Item
  | 0 => return .sequence items
  | fuel + 1 => do
    match ← next with
    | none => return .sequence items
    | some this =>
      if this == .plain '|' || this == .plain ')' then return .sequence items
      advance
      let here ← pos
      match this with
      | .escaped c =>
        readItems top first (items ++ [← escapeItem c]) fuel
      | .plain c =>
        let flags := (← get).flags
        if flags.verbose && isAsciiSpace c then readItems top first items fuel
        else if flags.verbose && c == '#' then
          skipLine ((← left) + 1)
          readItems top first items fuel
        else if c = '[' then readItems top first (items ++ [← setItem]) fuel
        else if c = '?' then
          readItems top first (← repeatLast items here 0 (some 1)) fuel
        else if c = '*' then readItems top first (← repeatLast items here 0 none) fuel
        else if c = '+' then readItems top first (← repeatLast items here 1 none) fuel
        else if c = '\x7b' then
          match ← bounds? here with
          | none => readItems top first (items ++ [← pointItem c.toNat]) fuel
          | some (least, most) =>
            readItems top first (← repeatLast items here least most) fuel
        else if c = '.' then
          let set := if flags.dotAll then CharClass.all else CharClass.inLine
          readItems top first (items ++ [.char set]) fuel
        else if c = '^' then
          let condition := if flags.multiline then Condition.lineStart else .textStart
          readItems top first (items ++ [.condition condition]) fuel
        else if c = '$' then
          let condition := if flags.multiline then Condition.lineEnd else .finalLineEnd
          readItems top first (items ++ [.condition condition]) fuel
        else if c = '(' then
          match ← readGroup (first && items.isEmpty) (here - 1) fuel with
          | none => readItems top first items fuel
          | some item => readItems top first (items ++ [item]) fuel
        else readItems top first (items ++ [← pointItem c.toNat]) fuel

/-- What follows an opening parenthesis at column `start`; `none` for a comment and for flags. -/
def readGroup (atStart : Bool) (start : Nat) : Nat → Reader (Option Item)
  | 0 => return none
  | fuel + 1 => do
    if !(← accept '?') then return some (← readCapture none start fuel)
    match ← take with
    | none => fail .unexpectedEnd 0
    | some (.escaped c) => fail (.unknownExtension ['?', '\\', c]) 3
    | some (.plain c) =>
      if c = 'P' then
        if ← accept '<' then
          let name ← takeUntil '>' "group name"
          if !isName name then fail (.badGroupName name) (name.length + 1)
          return some (← readCapture (some name) start fuel)
        else if ← accept '=' then return some (← namedReference)
        else match ← take with
          | none => fail .unexpectedEnd 0
          | some token =>
            fail (.unknownExtension ("?P".toList ++ token.text)) (token.text.length + 2)
      else if c = ':' then
        let body ← readChoices false fuel
        expectClose start
        return some { body with kind := .other }
      else if c = '#' then
        skipComment start ((← left) + 1)
        return none
      else if c = '=' || c = '!' then
        let body ← readChoices false fuel
        expectClose start
        return some ⟨.ahead (c == '!') body.node, .other, .zero⟩
      else if c = '<' then
        match ← take with
        | none => fail .unexpectedEnd 0
        | some token =>
          if !(token == .plain '=' || token == .plain '!') then
            fail (.unknownExtension ("?<".toList ++ token.text)) (token.text.length + 2)
          let limit := (← get).behindLimit
          modify fun s => { s with behindLimit := some (limit.getD (s.groups.length + 1)) }
          let body ← readChoices false fuel
          modify fun s => { s with behindLimit := limit }
          expectClose start
          if body.width.least ≠ body.width.greatest then
            modify fun s => { s with unevenBehind := true }
          return some ⟨.behind (token == .plain '!') body.width.least body.node, .other, .zero⟩
      else if c = '(' then
        let group ← questionGroup
        let yes ← readItems false false [] fuel
        let no ←
          if ← accept '|' then
            let no ← readItems false false [] fuel
            if ← nextIs '|' then fail .conditionalBranches 0
            pure no
          else pure (.sequence [])
        expectClose start
        return some ⟨.ifGroup group yes.node no.node, .other, yes.width.join no.width⟩
      else if c = '>' then
        let body ← readChoices false fuel
        expectClose start
        return some ⟨.atomic body.node, .other, body.width⟩
      else if isFlag (.plain c) || c = '-' then
        match ← readFlags c with
        | none =>
          if !atStart then failAt .lateGlobalFlags start
          return none
        | some (on, off) =>
          let outer := (← get).flags
          modify fun s => { s with flags := outer.adjust on off }
          let body ← readChoices false fuel
          expectClose start
          modify fun s => { s with flags := outer }
          return some { body with kind := .other }
      else fail (.unknownExtension ['?', c]) 2

/-- A group that records what it matches. -/
def readCapture (name : Option Text) (start : Nat) : Nat → Reader Item
  | 0 => return .sequence []
  | fuel + 1 => do
    let group ← openGroup name
    let body ← readChoices false fuel
    expectClose start
    closeGroup group body.width
    return ⟨.group group body.node, .other, body.width⟩

end

/-- The whole pattern. -/
def readPattern (size : Nat) : Reader Pattern := do
  advance
  let body ← readChoices true (4 * size + 8)
  if (← next).isSome then fail .unbalancedParenthesis 0
  let s ← get
  if let some (group, place) := s.questions.find? (s.groups.length < ·.1) then
    failAt (.unknownGroup group) place
  if s.unevenBehind then throw ⟨.unevenLookbehind, none⟩
  return ⟨body.node, s.groups.length⟩

end Reader

/-- The pattern that a text writes. -/
def parse (source : Text) : Except PatternError Pattern :=
  let start : ReaderState := ⟨⟨source, 0, none⟩, {}, [], [], none, [], false⟩
  (·.1) <$> (Reader.readPattern source.length).run start

end TodoTracker.Pattern
