import Callboard.Value.Basic

/-!
# The context of a problem

When and where a problem came up. Several problems may share one context, so a
context keeps what was last noted in it.
-/

set_option autoImplicit false

namespace Callboard

/-- A point in time: a calendar date, with its distance from universal time in
minutes if that is known, or what a clock shows. -/
inductive Timestamp where
  | calendar (year month day hour minute second microsecond : Nat) (offset : Option Int)
  | reading (t : Text)
  deriving DecidableEq

namespace Timestamp

def twoDigits (n : Nat) : Text := Text.padLeft 2 0x30 (Text.decimal n)

def offsetText (minutes : Int) : Text :=
  [if minutes < 0 then Text.minus else Text.plus] ++ twoDigits (minutes.natAbs / 60) ++
    [Text.colon] ++ twoDigits (minutes.natAbs % 60)

/-- A fraction is written in six digits, and only if there is one. -/
def fractionText (microsecond : Nat) : Text :=
  if microsecond = 0 then [] else Text.dot :: Text.padLeft 6 0x30 (Text.decimal microsecond)

def write : Timestamp → Text
  | .calendar year month day hour minute second microsecond offset =>
    Text.padLeft 4 0x30 (Text.decimal year) ++ [Text.minus] ++ twoDigits month ++ [Text.minus] ++
      twoDigits day ++ [0x54] ++ twoDigits hour ++ [Text.colon] ++ twoDigits minute ++
      [Text.colon] ++ twoDigits second ++ fractionText microsecond ++
      match offset with
      | none => []
      | some minutes => offsetText minutes
  | .reading t => t

end Timestamp

structure Context where
  timestamp : Timestamp
  taskName : Option Text
  invokeTarget : Option Text
  debugInfo : Value

def Context.fresh (timestamp : Timestamp) : Context := ⟨timestamp, none, none, .null⟩

end Callboard
