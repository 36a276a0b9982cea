import Callboard.Text.Wide

/-!
# How JSON is encoded

A JSON text may come in UTF-8, UTF-16 or UTF-32. A mark of the byte order in front
of it says in which; without a mark the zeros among its first bytes do, as a JSON
text begins with two ASCII code points or is one alone.
-/

set_option autoImplicit false

namespace Callboard.Json

open Text

inductive Encoding where
  | utf8
  | utf16 (order : ByteOrder)
  | utf32 (order : ByteOrder)
  deriving DecidableEq

namespace Encoding

def marked? : List Byte → Option (Encoding × List Byte)
  | 0x00 :: 0x00 :: 0xFE :: 0xFF :: r => some (.utf32 .big, r)
  | 0xFF :: 0xFE :: 0x00 :: 0x00 :: r => some (.utf32 .little, r)
  | 0xFE :: 0xFF :: r => some (.utf16 .big, r)
  | 0xFF :: 0xFE :: r => some (.utf16 .little, r)
  | 0xEF :: 0xBB :: 0xBF :: r => some (.utf8, r)
  | _ => none

def ofZeros : List Byte → Encoding
  | a :: b :: c :: d :: _ =>
    if a = 0 then (if b = 0 then .utf32 .big else .utf16 .big)
    else if b = 0 then (if c = 0 ∧ d = 0 then .utf32 .little else .utf16 .little)
    else .utf8
  | [a, b] => if a = 0 then .utf16 .big else if b = 0 then .utf16 .little else .utf8
  | _ => .utf8

def read? : Encoding → List Byte → Option Text
  | .utf8, bs => ofUtf8? bs
  | .utf16 order, bs => ofUtf16? order bs
  | .utf32 order, bs => ofUtf32? order bs

end Encoding

def textOfBytes? (bs : List Byte) : Option Text :=
  match Encoding.marked? bs with
  | some (e, r) => e.read? r
  | none => (Encoding.ofZeros bs).read? bs

end Callboard.Json
