import Callboard.Text.Basic

/-!
# Doubles, exactly

A finite double is its sign and its rank, the place of its magnitude in the
ascending list of the magnitudes. Every rank below the limit is a double and two
different ranks are two different magnitudes, so no invariant has to be kept. The
rank of a magnitude is its bit pattern without the sign.
-/

set_option autoImplicit false

namespace Callboard

/-- The number of magnitudes that have one exponent, two to the power 52. -/
def binade : Nat := 0x10000000000000

def rankLimit : Nat := 2047 * binade

theorem rankLimit_pos : 0 < rankLimit := by decide

inductive Binary64 where
  | nan
  | infinite (negative : Bool)
  | finite (negative : Bool) (rank : Fin rankLimit)
  deriving DecidableEq

namespace Binary64

def isFinite : Binary64 → Bool
  | .finite _ _ => true
  | _ => false

def zero (negative : Bool) : Binary64 := .finite negative ⟨0, rankLimit_pos⟩

def significand (rank : Nat) : Nat :=
  if rank < 2 * binade then rank else binade + rank % binade

def exponent (rank : Nat) : Int :=
  if rank < 2 * binade then -1074 else (rank / binade : Nat) - 1075

/-- `n / d` times `base ^ (-e)`, as numerator and denominator. -/
def scale (base n d : Nat) (e : Int) : Nat × Nat :=
  match e with
  | .ofNat k => (n, d * Nat.pow base k)
  | .negSucc k => (n * Nat.pow base (k + 1), d)

def ratio (rank : Nat) : Nat × Nat := scale 2 (significand rank) 1 (-exponent rank)

/-- The integer nearest to `n / d`, the even one of two. -/
def divNearest (n d : Nat) : Nat :=
  let q := n / d
  let r := n % d
  if 2 * r < d then q else if d < 2 * r then q + 1 else if q % 2 = 0 then q else q + 1

/-- The exponent at which the significand of `n / d` has 53 bits, or the least
exponent there is. -/
def exponentFor (n d : Nat) : Int :=
  let e : Int := (n.log2 : Int) - (d.log2 : Int) - 52
  let s := scale 2 n d e
  max (if s.1 / s.2 < binade then e - 1 else e) (-1074)

/-- The double nearest to `n / d`. A significand of 54 bits carries into the
exponent by itself, since ranks are consecutive. -/
def nearest (negative : Bool) (n d : Nat) : Binary64 :=
  if n = 0 then zero negative
  else
    let e := exponentFor n d
    let s := scale 2 n d e
    let rank := (e + 1074).toNat * binade + divNearest s.1 s.2
    if h : rank < rankLimit then .finite negative ⟨rank, h⟩ else .infinite negative

/-- The double nearest to `mantissa * 10 ^ e`. Exponents far outside the range
are answered without computing the power. -/
def ofDecimal (negative : Bool) (mantissa : Nat) (e : Int) : Binary64 :=
  if mantissa = 0 then zero negative
  else if 400 < e then .infinite negative
  else if e + (mantissa.log2 : Int) < -1200 then zero negative
  else
    let s := scale 10 mantissa 1 (-e)
    nearest negative s.1 s.2

def toInt? : Binary64 → Option Int
  | .finite negative rank =>
    let s := ratio rank
    if s.1 % s.2 = 0 then some (if negative then -((s.1 / s.2 : Nat) : Int) else (s.1 / s.2 : Nat))
    else none
  | _ => none

end Binary64

end Callboard
