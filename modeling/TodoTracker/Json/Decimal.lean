import TodoTracker.Text.Digit

/-!
# Numbers with a fraction or an exponent

Such a number is read as the nearest value of the binary format with 53 significant bits, of two
nearest values the even one. It is written with the fewest digits that read back as the same value.
Both are computed with whole numbers only.
-/

set_option autoImplicit false

namespace TodoTracker

/-- A value of the 64-bit binary format; the finite ones are `significand * 2 ^ exponent`. -/
inductive Decimal
  | undefined
  | infinite (negative : Bool)
  | finite (negative : Bool) (significand : Nat) (exponent : Int)
  deriving DecidableEq, Repr

namespace Decimal

def pow2 (n : Nat) : Nat := Nat.pow 2 n

def pow10 (n : Nat) : Nat := Nat.pow 10 n

/-- `num / den * base ^ e` as a numerator and a denominator, for the powers of one base. -/
def scale (power : Nat → Nat) (num den : Nat) (e : Int) : Nat × Nat :=
  if 0 ≤ e then (num * power e.toNat, den) else (num, den * power e.natAbs)

/-- The whole number nearest to a quotient, of two the even one. -/
def roundQuotient (num den : Nat) : Nat :=
  let q := num / den
  let r := num % den
  if 2 * r < den || (2 * r == den && q % 2 == 0) then q else q + 1

def pack (negative : Bool) (significand : Nat) (exponent : Int) : Decimal :=
  if exponent ≤ 971 then .finite negative significand exponent else .infinite negative

/-- The value nearest to `num / den`. The exponent is the one that leaves 53 bits before the point,
and not less than that of the least positive value. -/
def ofRatio (negative : Bool) (num den : Nat) : Decimal :=
  if num = 0 then .finite negative 0 0
  else
    let low : Int := (num.log2 : Int) - den.log2 - 53
    let (n, d) := scale pow2 num den (-low)
    let exponent := max (if n / d < pow2 53 then low else low + 1) (-1074)
    let (n, d) := scale pow2 num den (-exponent)
    let significand := roundQuotient n d
    if significand = pow2 53 then pack negative (pow2 52) (exponent + 1)
    else pack negative significand exponent

/-- The value nearest to `digits * 10 ^ exponent`. Beyond the exponents that can matter, the value
is infinite or zero. -/
def ofDigits (negative : Bool) (digits : Nat) (exponent : Int) : Decimal :=
  let magnitude := exponent + (Text.ofNat digits).length
  if digits = 0 || magnitude < -330 then .finite negative 0 0
  else if 330 < magnitude then .infinite negative
  else
    let (num, den) := scale pow10 digits 1 exponent
    ofRatio negative num den

/-- The value of a numeral: a sign, digits, and after them a fraction, an exponent or both. -/
def ofLiteral (literal : Text) : Decimal :=
  let (negative, numeral) := match literal with
    | '-' :: rest => (true, rest)
    | _ => (false, literal)
  let mantissa := numeral.takeWhile fun c => c != 'e' && c != 'E'
  let whole := mantissa.takeWhile (· != '.')
  let fraction := mantissa.drop (whole.length + 1)
  let exponent := (Text.readInt? (numeral.drop (mantissa.length + 1))).getD 0
  ofDigits negative (Text.digitsValue (whole ++ fraction)) (exponent - fraction.length)

def isZero : Decimal → Bool
  | .finite _ significand _ => significand == 0
  | _ => false

/-- A finite value cut toward zero. -/
def wholePart (negative : Bool) (significand : Nat) (exponent : Int) : Int :=
  let (num, den) := scale pow2 significand 1 exponent
  if negative then -((num / den : Nat) : Int) else ((num / den : Nat) : Int)

/-- How many digits of `num / den` stand before the decimal point; below 1 it counts, negatively,
the zeros right after the point. -/
def pointPlace (num den : Nat) : Int :=
  ((Text.ofNat (num * pow10 330 / den)).length : Int) - 330

/-- The two numbers of `count` digits on either side of `num / den`, the nearer one first. The
second part of the answer is the place of the last digit. -/
def neighbours (num den count : Nat) : List Nat × Int :=
  let last := pointPlace num den - count
  let (n, d) := scale pow10 num den (-last)
  let nearer := roundQuotient n d
  ([nearer, if nearer = n / d then nearer + 1 else n / d], last)

/-- The digits of `num / den` and the place of the last one: as few digits as read back as
`value`. -/
def shortest (value : Decimal) (num den : Nat) : Nat × Int :=
  let found := (List.range' 1 17).findSome? fun count =>
    let (candidates, last) := neighbours num den count
    (candidates.find? fun digits => ofDigits false digits last == value).map fun digits =>
      (digits, last)
  found.getD (num / den, 0)

def zeros (n : Nat) : Text := List.replicate n '0'

/-- An exponent has a sign and at least two digits. -/
def exponentText (e : Int) : Text :=
  let digits := Text.ofNat e.natAbs
  'e' :: (if e < 0 then '-' else '+') :: zeros (2 - digits.length) ++ digits

/-- Digits with the point after the first `point` of them: in full from 0.0001 up to sixteen digits
before the point, else with an exponent. -/
def layout (digits : Text) (point : Int) : Text :=
  if -4 < point && point ≤ 16 then
    if point ≤ 0 then "0.".toList ++ zeros point.natAbs ++ digits
    else if digits.length ≤ point.toNat then
      digits ++ zeros (point.toNat - digits.length) ++ ".0".toList
    else digits.take point.toNat ++ '.' :: digits.drop point.toNat
  else
    let fraction := if digits.length ≤ 1 then [] else '.' :: digits.drop 1
    digits.take 1 ++ fraction ++ exponentText (point - 1)

def withoutLastZeros (digits : Text) : Text := (digits.reverse.dropWhile (· == '0')).reverse

def signed (negative : Bool) (t : Text) : Text := if negative then '-' :: t else t

def text : Decimal → Text
  | .undefined => "NaN".toList
  | .infinite negative => signed negative "Infinity".toList
  | .finite negative significand exponent =>
    if significand = 0 then signed negative "0.0".toList
    else
      let (num, den) := scale pow2 significand 1 exponent
      let (digits, last) := shortest (.finite false significand exponent) num den
      let numeral := Text.ofNat digits
      signed negative (layout (withoutLastZeros numeral) (last + numeral.length))

/-- Taking two pairs apart, where a variable stands for the search, so that nothing evaluates it. -/
theorem layout_of_parts (negative : Bool) (parts : Nat × Nat) (search : Nat → Nat → Nat × Int)
    (t : Text)
    (h : ∀ num den digits last, parts = (num, den) → search num den = (digits, last) →
      signed negative
        (layout (withoutLastZeros (Text.ofNat digits)) (last + (Text.ofNat digits).length)) = t) :
    (match parts with
      | (num, den) => match search num den with
        | (digits, last) =>
          have numeral := Text.ofNat digits
          signed negative (layout (withoutLastZeros numeral) (last + numeral.length))) = t :=
  h parts.1 parts.2 (search parts.1 parts.2).1 (search parts.1 parts.2).2 rfl rfl

/-- The text of a number is laid out from its shortest digits. -/
theorem text_finite {negative : Bool} {significand num den digits : Nat} {exponent last : Int}
    (h : significand ≠ 0) (hscale : scale pow2 significand 1 exponent = (num, den))
    (hshortest : shortest (.finite false significand exponent) num den = (digits, last)) :
    text (.finite negative significand exponent) = signed negative
      (layout (withoutLastZeros (Text.ofNat digits)) (last + (Text.ofNat digits).length)) := by
  rw [text, if_neg h]
  refine layout_of_parts negative (scale pow2 significand 1 exponent)
    (shortest (.finite false significand exponent)) _ fun _ _ _ _ hscale' hshortest' => ?_
  rw [hscale] at hscale'
  cases hscale'
  rw [hshortest] at hshortest'
  cases hshortest'
  rfl

end Decimal

end TodoTracker
