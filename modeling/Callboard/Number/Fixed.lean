import Callboard.Number.Shortest

/-!
# Doubles with a given number of digits

The three forms in which a magnitude is written with as many digits as are asked
for: with fixed places, with a power of ten, and whichever of the two is shorter.
The digits are those of the nearest such decimal, and of two equally near ones
the even one.
-/

set_option autoImplicit false

namespace Callboard.Binary64

inductive Form where
  | fixed
  | scientific
  | general
  deriving DecidableEq

def tailText (keepPoint : Bool) (ts : Text) : Text :=
  if ts.isEmpty && !keepPoint then [] else Text.dot :: ts

def placedText (keepPoint : Bool) (mantissa places : Nat) : Text :=
  let ts := Text.padLeft (places + 1) 0x30 (Text.decimal mantissa)
  ts.take (ts.length - places) ++ tailText keepPoint (ts.drop (ts.length - places))

def fixedText (keepPoint : Bool) (rank places : Nat) : Text :=
  let s := scale 10 (ratio rank).1 (ratio rank).2 (-places)
  placedText keepPoint (divNearest s.1 s.2) places

/-- The `count + 1` leading digits of a magnitude, and the power of ten that the
first of them stands for. -/
def leading (rank count : Nat) : List Nat × Int :=
  if rank = 0 then (List.replicate (count + 1) 0, 0)
  else
    let e := pointFor (ratio rank).1 (ratio rank).2 - 1
    let s := scale 10 (ratio rank).1 (ratio rank).2 (e - count)
    let mantissa := divNearest s.1 s.2
    if mantissa = Nat.pow 10 (count + 1) then (1 :: List.replicate count 0, e + 1)
    else (Text.digits mantissa, e)

def scientificText (keepPoint : Bool) (ds : List Nat) (e : Int) : Text :=
  match ds.map Text.ofDigit with
  | [] => []
  | t :: ts => t :: tailText keepPoint ts ++ powerText e

/-- Digits with the first of them at the power of ten `e`, which is not above the
power of the last. -/
def positionalText (keepPoint : Bool) (ds : List Nat) (e : Int) : Text :=
  let ts := ds.map Text.ofDigit
  if e < 0 then chars "0." ++ zeros (-e - 1).toNat ++ ts
  else ts.take (e.toNat + 1) ++ zeros (e.toNat + 1 - ts.length) ++
    tailText keepPoint (ts.drop (e.toNat + 1))

/-- The general form has at least one digit. Unless they are asked for, its
trailing zeros are left out. -/
def generalText (keepZeros : Bool) (rank count : Nat) : Text :=
  let lead := leading rank (count - 1)
  let ds := if keepZeros then lead.1 else
    match dropTrailingZeros lead.1 with
    | [] => [0]
    | d :: ds => d :: ds
  if -4 ≤ lead.2 ∧ lead.2 < (max count 1 : Nat) then positionalText keepZeros ds lead.2
  else scientificText keepZeros ds lead.2

def formText (form : Form) (full : Bool) (rank precision : Nat) : Text :=
  match form with
  | .fixed => fixedText full rank precision
  | .scientific => let lead := leading rank precision; scientificText full lead.1 lead.2
  | .general => generalText full rank precision

def writeForm (form : Form) (full : Bool) (precision : Nat) : Binary64 → Text
  | .nan => chars "nan"
  | .infinite negative => if negative then chars "-inf" else chars "inf"
  | .finite negative rank =>
    if negative then Text.minus :: formText form full rank precision
    else formText form full rank precision

end Callboard.Binary64
