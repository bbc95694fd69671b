import TodoTracker.Pattern.Flaw

/-!
# Settings that cannot be used

Every cause is one that would make a scan give wrong results.
-/

set_option autoImplicit false

namespace TodoTracker

inductive SettingsError
  | noKeyMark (format : Text)
  | negativeRadius (radius : Int)
  | noSignalWord
  | badPattern (source : Text) (error : Pattern.PatternError)
  | noPattern
  | patternsType
  deriving DecidableEq, Repr

def SettingsError.message : SettingsError → Text
  | .noKeyMark format =>
    "insertion_format must contain \x7bkey\x7d: ".toList ++ Text.quoted format
  | .negativeRadius radius => "search_radius must be >= 0, got ".toList ++ Text.ofInt radius
  | .noSignalWord => "signal_words must name at least one word".toList
  | .badPattern source error =>
    "Invalid ticket pattern ".toList ++ Text.quoted source ++ ": ".toList ++ error.message source
  | .noPattern => "ticket_patterns must contain at least one pattern".toList
  | .patternsType => "ticket_patterns must be a string or a list of strings".toList

end TodoTracker
