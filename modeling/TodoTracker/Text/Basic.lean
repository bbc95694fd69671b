/-!
# Text as a list of characters

Every column, offset and length in this library counts characters, so a text is the list of its
characters. This file has searching, cutting, trimming and the two ways of breaking a text at
separators.
-/

set_option autoImplicit false

namespace TodoTracker

abbrev Text := List Char

namespace Text

/-- Where `needle` first occurs, counted in characters from the front. -/
def indexOf? (needle : Text) : Text → Option Nat
  | [] => if needle.isEmpty then some 0 else none
  | c :: rest =>
    if needle.isPrefixOf (c :: rest) then some 0 else (indexOf? needle rest).map (· + 1)

/-- Whether `needle` occurs somewhere in `t`. -/
def includes (t needle : Text) : Bool := (indexOf? needle t).isSome

/-- The parts before and after the first occurrence of `sep`. -/
def cut? (sep t : Text) : Option (Text × Text) :=
  (indexOf? sep t).map fun i => (t.take i, t.drop (i + sep.length))

/-- The characters from column `start` up to column `stop`. -/
def slice (t : Text) (start stop : Nat) : Text := (t.take stop).drop start

/-- Break at every character that satisfies `p`; `n` such characters give `n + 1` pieces. -/
def splitWhen (p : Char → Bool) : Text → List Text
  | [] => [[]]
  | c :: rest =>
    if p c then [] :: splitWhen p rest
    else match splitWhen p rest with
      | [] => [[c]]
      | piece :: pieces => (c :: piece) :: pieces

def splitOn (sep : Char) (t : Text) : List Text := splitWhen (· == sep) t

def joinWith (sep : Text) : List Text → Text
  | [] => []
  | [t] => t
  | t :: rest => t ++ sep ++ joinWith sep rest

/-- Drop the characters at the end that satisfy `p`. -/
def trimEndWhen (p : Char → Bool) (t : Text) : Text := (t.reverse.dropWhile p).reverse

def trimWhen (p : Char → Bool) (t : Text) : Text := trimEndWhen p (t.dropWhile p)

/-- `skip` characters of an occurrence of `old` are still to be passed over. -/
def replaceFrom (old new : Text) : Nat → Text → Text
  | _, [] => []
  | skip + 1, _ :: rest => replaceFrom old new skip rest
  | 0, c :: rest =>
    if old.isPrefixOf (c :: rest) then new ++ replaceFrom old new (old.length - 1) rest
    else c :: replaceFrom old new 0 rest

/-- Every occurrence of the non-empty text `old`, from left to right, becomes `new`. -/
def replaceAll (t old new : Text) : Text := replaceFrom old new 0 t

/-- Order by code points, a proper beginning of a text before the text. -/
def le : Text → Text → Bool
  | [], _ => true
  | _ :: _, [] => false
  | a :: s, b :: t => if a = b then le s t else a.toNat < b.toNat

def sort (ts : List Text) : List Text := ts.mergeSort le

/-- The decimal digits of a natural number. -/
def ofNat (n : Nat) : Text := Nat.toDigits 10 n

def ofInt : Int → Text
  | .ofNat n => ofNat n
  | .negSucc n => '-' :: ofNat (n + 1)

/-- Lower-case hexadecimal, with zeros in front up to `width` digits. -/
def hex (width n : Nat) : Text :=
  let digits := Nat.toDigits 16 n
  List.replicate (width - digits.length) '0' ++ digits

def isAsciiUpper (c : Char) : Bool := 65 ≤ c.toNat && c.toNat ≤ 90

def isAsciiLower (c : Char) : Bool := 97 ≤ c.toNat && c.toNat ≤ 122

def isAsciiDigit (c : Char) : Bool := 48 ≤ c.toNat && c.toNat ≤ 57

/-- A letter, a digit or the underscore of ASCII. -/
def isAsciiWord (c : Char) : Bool :=
  isAsciiUpper c || isAsciiLower c || isAsciiDigit c || c == '_'

def isAscii (c : Char) : Bool := c.toNat < 128

end Text

end TodoTracker
