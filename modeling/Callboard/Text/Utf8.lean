import Callboard.Text.Basic

/-!
# UTF-8

Texts as bytes. A surrogate code point is written like other code points of its
size. Lenient reading puts U+FFFD wherever bytes are no text, once for each longest
start of a code point, and a surrogate is no text. Strict reading reads nothing
then, but takes surrogates as they are written.
-/

set_option autoImplicit false

namespace Callboard.Text

abbrev Byte := Nat

def utf8CodePoint (c : CodePoint) : List Byte :=
  if c < 0x80 then [c]
  else if c < 0x800 then [0xC0 + c / 0x40, 0x80 + c % 0x40]
  else if c < 0x10000 then [0xE0 + c / 0x1000, 0x80 + c / 0x40 % 0x40, 0x80 + c % 0x40]
  else [0xF0 + c / 0x40000, 0x80 + c / 0x1000 % 0x40, 0x80 + c / 0x40 % 0x40, 0x80 + c % 0x40]

def utf8 (t : Text) : List Byte := t.flatMap utf8CodePoint

def isContinuation (b : Byte) : Bool := 0x80 ≤ b && b ≤ 0xBF

/-- How a code point begins: how many bytes follow the first, the bits that the
first gives, and the range of the second. -/
structure Lead where
  count : Nat
  bits : Nat
  low : Byte
  high : Byte

def lead? (b : Byte) : Option Lead :=
  if b < 0x80 then some ⟨0, b, 0x80, 0xBF⟩
  else if 0xC2 ≤ b ∧ b ≤ 0xDF then some ⟨1, b - 0xC0, 0x80, 0xBF⟩
  else if b = 0xE0 then some ⟨2, 0, 0xA0, 0xBF⟩
  else if b = 0xED then some ⟨2, 0xD, 0x80, 0x9F⟩
  else if 0xE1 ≤ b ∧ b ≤ 0xEF then some ⟨2, b - 0xE0, 0x80, 0xBF⟩
  else if b = 0xF0 then some ⟨3, 0, 0x90, 0xBF⟩
  else if 0xF1 ≤ b ∧ b ≤ 0xF3 then some ⟨3, b - 0xF0, 0x80, 0xBF⟩
  else if b = 0xF4 then some ⟨3, 4, 0x80, 0x8F⟩
  else none

/-- The bytes that are there, up to the first that does not fit. -/
def followers (l : Lead) : List Byte → List Byte
  | [] => []
  | b :: r =>
    if l.count = 0 then []
    else if l.low ≤ b ∧ b ≤ l.high then b :: (r.take (l.count - 1)).takeWhile isContinuation
    else []

def replacement : CodePoint := 0xFFFD

def assembled (l : Lead) (bs : List Byte) : CodePoint :=
  if bs.length = l.count then bs.foldl (fun n b => n * 0x40 + (b - 0x80)) l.bits else replacement

/-- The first argument counts the bytes that are already read. -/
def ofUtf8From : Nat → List Byte → Text
  | _, [] => []
  | read + 1, _ :: r => ofUtf8From read r
  | 0, b :: r =>
    match lead? b with
    | none => replacement :: ofUtf8From 0 r
    | some l => assembled l (followers l r) :: ofUtf8From (followers l r).length r

def ofUtf8 (bs : List Byte) : Text := ofUtf8From 0 bs

def strictLead? (b : Byte) : Option Lead :=
  if b = 0xED then some ⟨2, 0xD, 0x80, 0xBF⟩ else lead? b

def strictFrom? : Nat → List Byte → Option Text
  | _, [] => some []
  | read + 1, _ :: r => strictFrom? read r
  | 0, b :: r =>
    match strictLead? b with
    | none => none
    | some l =>
      if (followers l r).length = l.count then
        (strictFrom? l.count r).map (fun t => assembled l (followers l r) :: t)
      else none

def ofUtf8? (bs : List Byte) : Option Text := strictFrom? 0 bs

end Callboard.Text
