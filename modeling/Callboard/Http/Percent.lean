import Callboard.Text.Utf8

/-!
# Percent form

Where a code point must not stand as it is, its bytes stand in percent form: a
percent sign and two hexadecimal digits for each of them.
-/

set_option autoImplicit false

namespace Callboard.Http.Percent

open Text

def byte? (a b : CodePoint) : Option Byte :=
  match hexValue? a, hexValue? b with
  | some a, some b => some (16 * a + b)
  | _, _ => none

/-- A percent sign without two hexadecimal digits behind it stands for itself. -/
def bytes : Text → List Byte
  | [] => []
  | [c] => utf8CodePoint c
  | [c, d] => utf8CodePoint c ++ bytes [d]
  | c :: a :: b :: r =>
    if c = percent then
      match byte? a b with
      | some n => n :: bytes r
      | none => c :: bytes (a :: b :: r)
    else utf8CodePoint c ++ bytes (a :: b :: r)

def decode (t : Text) : Text := ofUtf8 (bytes t)

def escape (b : Byte) : Text := [percent, hexDigitUpper (b / 16), hexDigitUpper (b % 16)]

def encode (safe : CodePoint → Bool) (t : Text) : Text :=
  t.flatMap (fun c => if safe c then [c] else (utf8CodePoint c).flatMap escape)

def isUnreserved (c : CodePoint) : Bool :=
  isLetter c || isAsciiDigit c || c == underscore || c == dot || c == minus || c == 0x7E

end Callboard.Http.Percent
