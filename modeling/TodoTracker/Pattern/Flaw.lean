import TodoTracker.Text.Printable

/-!
# What can be wrong with a ticket pattern

Each flaw has one wording. A message names the place of the flaw, and its line and column when the
pattern has several lines.
-/

set_option autoImplicit false

namespace TodoTracker.Pattern

inductive Flaw
  | danglingBackslash
  | badEscape (escape : Text)
  | incompleteEscape (escape : Text)
  | octalRange (escape : Text)
  | missing (what : Text)
  | unterminatedName (terminator : Char)
  | undefinedCharacter (name : Text)
  | badGroupName (name : Text)
  | unknownGroupName (name : Text)
  | redefinedGroupName (name : Text) (group earlier : Nat)
  | openGroup
  | groupInLookbehind
  | badGroupNumber
  | unknownGroup (group : Nat)
  | unterminatedSet
  | badRange (low high : Text)
  | descendingRepeat
  | nothingToRepeat
  | multipleRepeat
  | repetitionTooLarge
  | unexpectedEnd
  | unknownExtension (text : Text)
  | unterminatedComment
  | unterminatedGroup
  | unbalancedParenthesis
  | conditionalBranches
  | lateGlobalFlags
  | localeFlag
  | incompatibleFlags
  | unknownFlag
  | globalFlagOn
  | globalFlagOff
  | typeFlagOff
  | flagOnAndOff
  | unevenLookbehind
  deriving DecidableEq, Repr

def Flaw.message : Flaw → Text
  | .danglingBackslash => "bad escape (end of pattern)".toList
  | .badEscape escape => "bad escape ".toList ++ escape
  | .incompleteEscape escape => "incomplete escape ".toList ++ escape
  | .octalRange escape =>
    "octal escape value ".toList ++ escape ++ " outside of range 0-0o377".toList
  | .missing what => "missing ".toList ++ what
  | .unterminatedName terminator =>
    "missing ".toList ++ [terminator] ++ ", unterminated name".toList
  | .undefinedCharacter name => "undefined character name ".toList ++ Text.quoted name
  | .badGroupName name => "bad character in group name ".toList ++ Text.quoted name
  | .unknownGroupName name => "unknown group name ".toList ++ Text.quoted name
  | .redefinedGroupName name group earlier =>
    "redefinition of group name ".toList ++ Text.quoted name ++ " as group ".toList ++
      Text.ofNat group ++ "; was group ".toList ++ Text.ofNat earlier
  | .openGroup => "cannot refer to an open group".toList
  | .groupInLookbehind =>
    "cannot refer to group defined in the same lookbehind subpattern".toList
  | .badGroupNumber => "bad group number".toList
  | .unknownGroup group => "invalid group reference ".toList ++ Text.ofNat group
  | .unterminatedSet => "unterminated character set".toList
  | .badRange low high => "bad character range ".toList ++ low ++ ['-'] ++ high
  | .descendingRepeat => "min repeat greater than max repeat".toList
  | .nothingToRepeat => "nothing to repeat".toList
  | .multipleRepeat => "multiple repeat".toList
  | .repetitionTooLarge => "the repetition number is too large".toList
  | .unexpectedEnd => "unexpected end of pattern".toList
  | .unknownExtension text => "unknown extension ".toList ++ text
  | .unterminatedComment => "missing ), unterminated comment".toList
  | .unterminatedGroup => "missing ), unterminated subpattern".toList
  | .unbalancedParenthesis => "unbalanced parenthesis".toList
  | .conditionalBranches => "conditional backref with more than two branches".toList
  | .lateGlobalFlags => "global flags not at the start of the expression".toList
  | .localeFlag => "bad inline flags: cannot use 'L' flag with a str pattern".toList
  | .incompatibleFlags =>
    "bad inline flags: flags 'a', 'u' and 'L' are incompatible".toList
  | .unknownFlag => "unknown flag".toList
  | .globalFlagOn => "bad inline flags: cannot turn on global flag".toList
  | .globalFlagOff => "bad inline flags: cannot turn off global flag".toList
  | .typeFlagOff => "bad inline flags: cannot turn off flags 'a', 'u' and 'L'".toList
  | .flagOnAndOff => "bad inline flags: flag turned on and off".toList
  | .unevenLookbehind => "look-behind requires fixed-width pattern".toList

/-- A flaw and the column of the pattern where it shows, unless it is one of the whole pattern. -/
structure PatternError where
  flaw : Flaw
  pos : Option Nat
  deriving DecidableEq, Repr

def PatternError.message (source : Text) (e : PatternError) : Text :=
  match e.pos with
  | none => e.flaw.message
  | some pos =>
    let before := source.take pos
    let place := e.flaw.message ++ " at position ".toList ++ Text.ofNat pos
    if source.contains '\n' then
      let column := (before.reverse.takeWhile (· != '\n')).length + 1
      place ++ " (line ".toList ++ Text.ofNat (before.count '\n' + 1) ++ ", column ".toList ++
        Text.ofNat column ++ [')']
    else place

end TodoTracker.Pattern
