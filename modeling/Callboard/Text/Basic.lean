/-!
# Texts

A text is a list of code points. Surrogate code points may stand in it on their
own, so a text is more general than a character string. This module holds the
code points that have a meaning in the formats of this library, and how numbers
are written in decimal and hexadecimal digits.
-/

set_option autoImplicit false

namespace Callboard

abbrev CodePoint := Nat
abbrev Text := List CodePoint

def chars (s : String) : Text := s.toList.map Char.toNat

namespace Text

@[match_pattern] abbrev newline : CodePoint := 0x0A
@[match_pattern] abbrev space : CodePoint := 0x20
@[match_pattern] abbrev quote : CodePoint := 0x22
@[match_pattern] abbrev percent : CodePoint := 0x25
@[match_pattern] abbrev apostrophe : CodePoint := 0x27
@[match_pattern] abbrev openParen : CodePoint := 0x28
@[match_pattern] abbrev closeParen : CodePoint := 0x29
@[match_pattern] abbrev plus : CodePoint := 0x2B
@[match_pattern] abbrev comma : CodePoint := 0x2C
@[match_pattern] abbrev minus : CodePoint := 0x2D
@[match_pattern] abbrev dot : CodePoint := 0x2E
@[match_pattern] abbrev slash : CodePoint := 0x2F
@[match_pattern] abbrev colon : CodePoint := 0x3A
@[match_pattern] abbrev openBracket : CodePoint := 0x5B
@[match_pattern] abbrev backslash : CodePoint := 0x5C
@[match_pattern] abbrev closeBracket : CodePoint := 0x5D
@[match_pattern] abbrev underscore : CodePoint := 0x5F
@[match_pattern] abbrev openBrace : CodePoint := 0x7B
@[match_pattern] abbrev closeBrace : CodePoint := 0x7D

def isLower (c : CodePoint) : Bool := 0x61 ≤ c && c ≤ 0x7A
def isUpper (c : CodePoint) : Bool := 0x41 ≤ c && c ≤ 0x5A
def isLetter (c : CodePoint) : Bool := isLower c || isUpper c
def isAsciiDigit (c : CodePoint) : Bool := 0x30 ≤ c && c ≤ 0x39

def isHighSurrogate (c : CodePoint) : Bool := 0xD800 ≤ c && c ≤ 0xDBFF
def isLowSurrogate (c : CodePoint) : Bool := 0xDC00 ≤ c && c ≤ 0xDFFF
def isSurrogate (c : CodePoint) : Bool := isHighSurrogate c || isLowSurrogate c

def joinSurrogates (high low : CodePoint) : CodePoint :=
  0x10000 + (high - 0xD800) * 0x400 + (low - 0xDC00)

def lowerAscii (t : Text) : Text := t.map (fun c => if isUpper c then c + 0x20 else c)

/-- Besides the capital ASCII letters only the sign for kelvin has a small ASCII letter. -/
def smalls (t : Text) : Text :=
  t.map (fun c => if isUpper c then c + 0x20 else if c = 0x212A then 0x6B else c)

/-- Letters beyond ASCII whose capitals are ASCII letters: the sharp s, the dotless i,
the long s and the ligatures. -/
def capitalForms : List (CodePoint × Text) := [
  (0xDF, chars "SS"), (0x131, chars "I"), (0x17F, chars "S"), (0xFB00, chars "FF"),
  (0xFB01, chars "FI"), (0xFB02, chars "FL"), (0xFB03, chars "FFI"), (0xFB04, chars "FFL"),
  (0xFB05, chars "ST"), (0xFB06, chars "ST")]

def capitals (t : Text) : Text :=
  t.flatMap (fun c => if isLower c then [c - 0x20] else (capitalForms.lookup c).getD [c])

/-- The first argument bounds the number of digits. -/
def digitsOnto : Nat → Nat → List Nat → List Nat
  | 0, _, acc => acc
  | fuel + 1, n, acc => if n < 10 then n :: acc else digitsOnto fuel (n / 10) (n % 10 :: acc)

def digits (n : Nat) : List Nat := digitsOnto (n.log2 + 1) n []

def ofDigits (ds : List Nat) : Nat := ds.foldl (fun n d => 10 * n + d) 0

def ofDigit (d : Nat) : CodePoint := 0x30 + d

def decimal (n : Nat) : Text := (digits n).map ofDigit

def signedDecimal : Int → Text
  | .ofNat n => decimal n
  | .negSucc n => minus :: decimal (n + 1)

def hexDigit (d : Nat) : CodePoint := if d < 10 then 0x30 + d else 0x57 + d

def hexDigitUpper (d : Nat) : CodePoint := if d < 10 then 0x30 + d else 0x37 + d

def hexValue? (c : CodePoint) : Option Nat :=
  if isAsciiDigit c then some (c - 0x30)
  else if 0x61 ≤ c && c ≤ 0x66 then some (c - 0x57)
  else if 0x41 ≤ c && c ≤ 0x46 then some (c - 0x37)
  else none

/-- The last `width` hexadecimal digits of `n`. -/
def hex : Nat → Nat → Text
  | 0, _ => []
  | width + 1, n => hex width (n / 16) ++ [hexDigit (n % 16)]

theorem hexValue_hexDigit : ∀ d : Nat, d < 16 → hexValue? (hexDigit d) = some d := by
  decide

def after? : Text → Text → Option Text
  | [], t => some t
  | _ :: _, [] => none
  | a :: start, c :: t => if a = c then after? start t else none

def splitAt (sep : CodePoint) : Text → List Text
  | [] => [[]]
  | c :: t =>
    match splitAt sep t with
    | [] => [[c]]
    | part :: parts => if c = sep then [] :: part :: parts else (c :: part) :: parts

def upTo (sep : CodePoint) (t : Text) : Text := t.takeWhile (fun c => c != sep)

def beyond? (sep : CodePoint) : Text → Option Text
  | [] => none
  | c :: t => if c = sep then some t else beyond? sep t

def padLeft (width : Nat) (fill : CodePoint) (t : Text) : Text :=
  List.replicate (width - t.length) fill ++ t

def join (sep : Text) : List Text → Text
  | [] => []
  | [t] => t
  | t :: ts => t ++ sep ++ join sep ts

theorem after?_append (start t : Text) : after? start (start ++ t) = some t := by
  induction start with
  | nil => rfl
  | cons a start ih => simp [after?, ih]

end Text

end Callboard
