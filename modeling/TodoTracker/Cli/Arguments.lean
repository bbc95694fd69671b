import TodoTracker.Text.Digit
import TodoTracker.Text.Printable

/-!
# Command line arguments

A command line has options, which may stand in any order and be shortened as long as that is not
ambiguous, and operands, which are the other arguments. A value is given to an option after an
equals sign or as the next argument. Two hyphens alone make everything after them operands. A
negative number is an operand, and so is an argument with a space in it that is no option.
-/

set_option autoImplicit false

namespace TodoTracker

/-- Why the value of an option cannot be used. -/
inductive ValueFlaw
  | notInteger (value : Text)
  | notAmong (value : Text) (choices : List Text)
  deriving DecidableEq, Repr

def ValueFlaw.message : ValueFlaw → Text
  | .notInteger value => "invalid int value: ".toList ++ Text.quoted value
  | .notAmong value choices =>
    "invalid choice: ".toList ++ Text.quoted value ++ " (choose from ".toList ++
      Text.joinWith ", ".toList (choices.map Text.quoted) ++ [')']

inductive ArgumentFlaw
  | value (flaw : ValueFlaw)
  | missingValue
  | surplusValue (value : Text)
  deriving DecidableEq, Repr

def ArgumentFlaw.message : ArgumentFlaw → Text
  | .value flaw => flaw.message
  | .missingValue => "expected one argument".toList
  | .surplusValue given => "ignored explicit argument ".toList ++ Text.quoted given

/-- What is wrong with the arguments of a command. -/
inductive UsageError
  | ambiguous (option : Text) (candidates : List Text)
  | argument (name : Text) (flaw : ArgumentFlaw)
  | unrecognized (arguments : List Text)
  deriving DecidableEq, Repr

def UsageError.message : UsageError → Text
  | .ambiguous option candidates =>
    "ambiguous option: ".toList ++ option ++ " could match ".toList ++
      Text.joinWith ", ".toList candidates
  | .argument name flaw => "argument ".toList ++ name ++ ": ".toList ++ flaw.message
  | .unrecognized arguments =>
    "unrecognized arguments: ".toList ++ Text.joinWith [' '] arguments

/-- Why the arguments of a command are not acted upon. -/
inductive Stop
  /-- Help was asked for. -/
  | help (text : Text)
  | misuse (program usage : Text) (error : UsageError)
  deriving DecidableEq, Repr

/-- What an option does to the result. A switch gets the name by which it is given. -/
inductive OptionEffect (α : Type)
  | help
  | switch (set : Text → α → α)
  | value (set : Text → α → Except ValueFlaw α)

structure OptionSpec (α : Type) where
  names : List Text
  effect : OptionEffect α

/-- What becomes of operands. -/
inductive OperandSpec (α : Type)
  /-- All operands up to the next option. -/
  | many (set : List Text → α → α)
  | atMostOne (set : Text → α → α)
  /-- The first operand and all arguments after it; the answer has arguments that are left over. -/
  | command (run : Text → List Text → α → Except Stop (α × List Text))

structure CommandLine (α : Type) where
  program : Text
  help : Text
  options : List (OptionSpec α)
  operands : OperandSpec α

/-- An option as it is given. `byCluster` says that its value is written without a separator. -/
structure GivenOption (α : Type) where
  spec : OptionSpec α
  name : Text
  value : Option Text
  byCluster : Bool

inductive Role (α : Type)
  | operand
  | separator
  | option (given : GivenOption α)
  /-- It looks like an option but is none. -/
  | unknown

/-- An argument with its role. -/
structure Argument (α : Type) where
  text : Text
  role : Role α

namespace OptionSpec

variable {α : Type}

/-- The name of an option in messages. -/
def title (spec : OptionSpec α) : Text := Text.joinWith ['/'] spec.names

end OptionSpec

namespace Argument

variable {α : Type}

def isOption (argument : Argument α) : Bool :=
  match argument.role with
  | .option _ | .unknown => true
  | _ => false

def isOperand (argument : Argument α) : Bool :=
  match argument.role with
  | .operand => true
  | _ => false

def isSeparator (argument : Argument α) : Bool :=
  match argument.role with
  | .separator => true
  | _ => false

def separatorText : Text := ['-', '-']

/-- Digits up to the end, or up to a line feed that ends the text. -/
def isDigitsToEnd (t : Text) : Bool :=
  let rest := t.dropWhile Text.isDigit
  rest.length < t.length && (rest.isEmpty || rest == ['\n'])

/-- Whether an argument writes a negative number. -/
def isNegativeNumber : Text → Bool
  | '-' :: t =>
    isDigitsToEnd t || match t.dropWhile Text.isDigit with
      | '.' :: fraction => isDigitsToEnd fraction
      | _ => false
  | _ => false

end Argument

namespace CommandLine

variable {α : Type}

/-- The usage is the part of the help up to the first empty line. -/
def usage (line : CommandLine α) : Text :=
  match Text.indexOf? ['\n', '\n'] line.help with
  | some i => line.help.take (i + 1)
  | none => line.help

def misuse {β : Type} (line : CommandLine α) (error : UsageError) : Except Stop β :=
  .error (.misuse line.program line.usage error)

/-- Every name of an option with the option. -/
def named (line : CommandLine α) : List (Text × OptionSpec α) :=
  line.options.flatMap fun spec => spec.names.map (·, spec)

/-- The options that a shortened name may mean. -/
def expand (line : CommandLine α) (argument : Text) : List (GivenOption α) :=
  let cut := Text.cut? ['='] argument
  let start := (cut.map (·.1)).getD argument
  if Argument.separatorText.isPrefixOf argument then
    line.named.filterMap fun (name, spec) =>
      if start.isPrefixOf name then some ⟨spec, name, cut.map (·.2), false⟩ else none
  else
    line.named.filterMap fun (name, spec) =>
      if name = argument.take 2 then some ⟨spec, name, some (argument.drop 2), true⟩
      else if argument.isPrefixOf name then some ⟨spec, name, none, false⟩
      else none

/-- The option that an argument names in full, alone or in front of an equals sign. -/
def inFull? (line : CommandLine α) (argument : Text) : Option (GivenOption α) :=
  match line.named.lookup argument with
  | some spec => some ⟨spec, argument, none, false⟩
  | none =>
    match Text.cut? ['='] argument with
    | none => none
    | some (name, value) =>
      (line.named.lookup name).map fun spec => ⟨spec, name, some value, false⟩

/-- The role of an argument that no separator stands in front of. -/
def classify (line : CommandLine α) (argument : Text) : Except Stop (Role α) :=
  if argument.head? ≠ some '-' ∨ argument.length = 1 then .ok .operand
  else match line.inFull? argument with
    | some given => .ok (.option given)
    | none =>
      match line.expand argument with
      | [given] => .ok (.option given)
      | [] =>
        if Argument.isNegativeNumber argument || argument.contains ' ' then
          .ok .operand
        else .ok .unknown
      | candidates => line.misuse (.ambiguous argument (candidates.map GivenOption.name))

/-- The arguments by their roles. -/
def classifyAll (line : CommandLine α) : List Text → Except Stop (List (Argument α))
  | [] => .ok []
  | argument :: rest =>
    if argument = Argument.separatorText then
      .ok (⟨argument, .separator⟩ :: rest.map (⟨·, .operand⟩))
    else do
      let role ← line.classify argument
      return ⟨argument, role⟩ :: (← line.classifyAll rest)

/-- What has been read so far. -/
structure Reading (α : Type) where
  result : α
  /-- The operands have been taken. -/
  done : Bool
  unrecognized : List Text

/-- How many arguments the operands of a command line take from the front. -/
def operandCount (operands : OperandSpec α) (arguments : List (Argument α)) : Nat :=
  let separators := (arguments.takeWhile Argument.isSeparator).length
  let hasOperand := (arguments.drop separators).head?.any Argument.isOperand
  match operands with
  | .many _ => (arguments.takeWhile (!·.isOption)).length
  | .atMostOne _ =>
    let after := arguments.drop (separators + 1)
    let more := (after.takeWhile Argument.isSeparator).length
    if hasOperand then separators + 1 + more else separators
  | .command _ => if hasOperand then arguments.length else 0

/-- Give operands their meaning; one separator among them is dropped. -/
def takeOperands (operands : OperandSpec α) (given : List Text) (reading : Reading α) :
    Except Stop (Reading α) :=
  match operands with
  | .many set =>
    .ok { reading with result := set (given.erase Argument.separatorText) reading.result }
  | .atMostOne set =>
    match given.erase Argument.separatorText with
    | [] => .ok reading
    | value :: _ => .ok { reading with result := set value reading.result }
  | .command run => do
    match given with
    | [] => return reading
    | name :: rest =>
      let (result, unrecognized) ← run name rest reading.result
      return { reading with result, unrecognized := reading.unrecognized ++ unrecognized }

/-- The surplus value in a cluster of short options that take none, if it has one. What is no option
ends the cluster. -/
def clusterSurplus? (line : CommandLine α) : Text → Option Text
  | [] => none
  | c :: rest =>
    if c = '-' then some (c :: rest)
    else if (line.named.lookup ['-', c]).isNone then none
    else match rest with
      | '=' :: value => some value
      | _ => line.clusterSurplus? rest

/-- The value that is given to an option that takes none, if one is. -/
def surplus? (line : CommandLine α) (given : GivenOption α) : Option Text :=
  match given.value with
  | none => none
  | some value => if given.byCluster then line.clusterSurplus? value else some value

/-- Act on an option, given the arguments after it; the answer says whether it takes the next. -/
def takeOption (line : CommandLine α) (given : GivenOption α) (rest : List (Argument α))
    (reading : Reading α) : Except Stop (Reading α × Bool) :=
  let bad := fun (flaw : ArgumentFlaw) => line.misuse (.argument given.spec.title flaw)
  let surplus := line.surplus? given
  match given.spec.effect, given.value, rest with
  | .help, _, _ =>
    match surplus with
    | some value => bad (.surplusValue value)
    | none => .error (.help line.help)
  | .switch set, _, _ =>
    match surplus with
    | some value => bad (.surplusValue value)
    | none => .ok ({ reading with result := set given.name reading.result }, false)
  | .value set, some value, _ =>
    match set value reading.result with
    | .ok result => .ok ({ reading with result }, false)
    | .error flaw => bad (.value flaw)
  | .value set, none, next :: _ =>
    if !next.isOperand then bad .missingValue
    else match set next.text reading.result with
      | .ok result => .ok ({ reading with result }, true)
      | .error flaw => bad (.value flaw)
  | .value _, none, [] => bad .missingValue

/-- Go through the arguments from left to right. -/
def read (line : CommandLine α) (arguments : List (Argument α)) (reading : Reading α) :
    Except Stop (Reading α) :=
  match arguments with
  | [] => .ok reading
  | argument :: rest =>
    match argument.role with
    | .option given =>
      match line.takeOption given rest reading with
      | .error stop => .error stop
      | .ok (reading, true) => line.read (rest.drop 1) reading
      | .ok (reading, false) => line.read rest reading
    | .unknown =>
      line.read rest { reading with unrecognized := reading.unrecognized ++ [argument.text] }
    | _ =>
      let count := if reading.done then 0 else operandCount line.operands arguments
      if count = 0 then
        line.read rest { reading with unrecognized := reading.unrecognized ++ [argument.text] }
      else
        match takeOperands line.operands ((arguments.take count).map Argument.text) reading with
        | .error stop => .error stop
        | .ok reading => line.read (rest.drop (count - 1)) { reading with done := true }
termination_by arguments.length
decreasing_by
  all_goals simp only [List.length_drop, List.length_cons]
  all_goals omega

/-- What the arguments say, and the arguments that are not recognized. -/
def parse (line : CommandLine α) (start : α) (arguments : List Text) :
    Except Stop (α × List Text) := do
  let reading ← line.read (← line.classifyAll arguments) ⟨start, false, []⟩
  return (reading.result, reading.unrecognized)

end CommandLine

end TodoTracker
