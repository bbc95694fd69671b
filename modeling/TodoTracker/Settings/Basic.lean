import TodoTracker.Failure

/-!
# Settings of a scan

Settings are checked before a scan touches anything: the format has a place for the key, the search
radius is not negative, there is a signal word, and every ticket pattern can be read.
-/

set_option autoImplicit false

namespace TodoTracker

structure Settings where
  signalWords : List Text := ["TODO", "FIXME", "HACK", "BUG", "NOTE"].map String.toList
  ticketPatterns : List Text := ["\\b([A-Z][A-Z0-9]+-\\d+)\\b".toList]
  /-- Whether the issue types are signal words too. -/
  ticketWords : Bool := false
  issueTypes : List Text := ["Feature", "Bug", "Chore"].map String.toList
  mentions : Bool := true
  stripAttributes : Bool := true
  insertionFormat : Text := "(\x7bkey\x7d)".toList
  searchRadius : Int := 7
  project : Text := "TASK".toList
  /-- The file the settings come from. -/
  source : Option Text := none
  deriving DecidableEq, Repr

/-- The patterns that the texts write; the first text that writes none is the failure. -/
def compilePatterns (sources : List Text) : Except Failure (List Pattern) := do
  let patterns ← sources.mapM fun source =>
    match Pattern.parse source with
    | .ok pattern => .ok pattern
    | .error error =>
      if error.flaw = .repetitionTooLarge then .error .repetitionTooLarge
      else .error (.settings (.badPattern source error))
  if patterns.isEmpty then throw (.settings .noPattern)
  return patterns

/-- The project that a directory name suggests: its letters and digits, at most eight of them, in
upper case, if the first is a letter. -/
def projectOf (name : Text) : Text :=
  let letters := ((name.filter fun c =>
    Text.isAsciiUpper c || Text.isAsciiLower c || Text.isAsciiDigit c).flatMap
      Text.upperChar).take 8
  match letters with
  | [] => "TASK".toList
  | c :: _ => if Text.isAsciiUpper c then letters else "TASK".toList

/-- A count with its noun, in the plural unless the count is one. -/
def plural (count : Int) (noun : Text) : Text :=
  Text.ofInt count ++ ' ' :: noun ++ (if count = 1 then [] else ['s'])

namespace Settings

/-- The signal words, and after them the issue types that are no signal words yet if they count. -/
def allSignalWords (settings : Settings) : List Text :=
  if settings.ticketWords then
    settings.issueTypes.foldl
      (fun words type => if words.contains type then words else words ++ [type])
      settings.signalWords
  else settings.signalWords

/-- Check every setting that a scan depends on and read the ticket patterns. -/
def compiled (settings : Settings) : Except Failure (List Pattern) := do
  if !Text.includes settings.insertionFormat Splice.keyMark then
    throw (.settings (.noKeyMark settings.insertionFormat))
  if settings.searchRadius < 0 then
    throw (.settings (.negativeRadius settings.searchRadius))
  if settings.allSignalWords.all Text.isEmptyLine then throw (.settings .noSignalWord)
  compilePatterns settings.ticketPatterns

end Settings

end TodoTracker
