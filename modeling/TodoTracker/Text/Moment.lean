import TodoTracker.Text.Basic

/-!
# Moments

A moment is written in universal time to the second, with the letters T and Z.
-/

set_option autoImplicit false

namespace TodoTracker.Moment

/-- The year, month and day at a number of days after the first day of 1970. Years are counted from
March on, in spans of 400, so that the leap day is the last of its year. -/
def date (days : Nat) : Nat × Nat × Nat :=
  let shifted := days + 719468
  let inSpan := shifted % 146097
  let year := (inSpan - inSpan / 1460 + inSpan / 36524 - inSpan / 146096) / 365
  let inYear := inSpan - (365 * year + year / 4 - year / 100)
  let part := (5 * inYear + 2) / 153
  let month := if part < 10 then part + 3 else part - 9
  let later := if month ≤ 2 then 1 else 0
  (400 * (shifted / 146097) + year + later, month, inYear - (153 * part + 2) / 5 + 1)

def twoDigits (n : Nat) : Text := List.replicate (2 - (Text.ofNat n).length) '0' ++ Text.ofNat n

/-- The text of a moment, given in seconds from the start of 1970. -/
def text (seconds : Nat) : Text :=
  let (year, month, day) := date (seconds / 86400)
  Text.joinWith ['-'] [Text.ofNat year, twoDigits month, twoDigits day] ++ 'T' ::
    Text.joinWith [':']
      [twoDigits (seconds / 3600 % 24), twoDigits (seconds / 60 % 60), twoDigits (seconds % 60)] ++
    ['Z']

end TodoTracker.Moment
