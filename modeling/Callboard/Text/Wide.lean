import Callboard.Text.Utf8

/-!
# UTF-16 and UTF-32

Texts as bytes in units of two and of four. A surrogate that is not part of a pair
is read as a code point of its own. Nothing is read from bytes that end inside a
unit or from a unit that is no code point.
-/

set_option autoImplicit false

namespace Callboard.Text

inductive ByteOrder where
  | big
  | little
  deriving DecidableEq

def ByteOrder.number : ByteOrder → List Byte → Nat
  | .big, bs => bs.foldl (fun n b => n * 0x100 + b) 0
  | .little, bs => bs.foldr (fun b n => n * 0x100 + b) 0

def pairs? (o : ByteOrder) : List Byte → Option (List Nat)
  | [] => some []
  | [_] => none
  | a :: b :: r => (pairs? o r).map (fun us => o.number [a, b] :: us)

def quadruples? (o : ByteOrder) : List Byte → Option (List Nat)
  | [] => some []
  | a :: b :: c :: d :: r => (quadruples? o r).map (fun us => o.number [a, b, c, d] :: us)
  | _ => none

def joinPairs : List Nat → Text
  | [] => []
  | [u] => [u]
  | high :: low :: us =>
    if isHighSurrogate high && isLowSurrogate low then joinSurrogates high low :: joinPairs us
    else high :: joinPairs (low :: us)

def ofUtf16? (o : ByteOrder) (bs : List Byte) : Option Text := (pairs? o bs).map joinPairs

def ofUtf32? (o : ByteOrder) (bs : List Byte) : Option Text :=
  match quadruples? o bs with
  | none => none
  | some us => if us.all (fun u => u < 0x110000) then some us else none

end Callboard.Text
