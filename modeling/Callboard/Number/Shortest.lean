import Callboard.Number.Numeral

/-!
# The shortest text of a double

A finite double is written with the fewest significant digits that read back as
the same double, and with the nearest of those. The text is positional while the
leading digit stands for a power of ten from -4 to 15.
-/

set_option autoImplicit false

namespace Callboard.Binary64

/-- The place of the decimal point: `10 ^ (p - 1) ≤ n / d < 10 ^ p`. -/
def pointFor (n d : Nat) : Int :=
  let p : Int := ((Text.digits n).length : Int) - ((Text.digits d).length : Int)
  let s := scale 10 n d p
  if s.2 ≤ s.1 then p + 1 else p

def dropTrailingZeros (ds : List Nat) : List Nat :=
  (ds.reverse.dropWhile (fun d => d == 0)).reverse

def zeros (n : Nat) : Text := List.replicate n 0x30

def powerText (e : Int) : Text :=
  [0x65, if e < 0 then Text.minus else Text.plus] ++
    Text.padLeft 2 0x30 (Text.decimal e.natAbs)

def layout (ds : List Nat) (p : Int) : Text :=
  let ts := ds.map Text.ofDigit
  if -4 < p ∧ p ≤ 16 then
    if p ≤ 0 then chars "0." ++ zeros (-p).toNat ++ ts
    else if ts.length ≤ p.toNat then ts ++ zeros (p.toNat - ts.length) ++ chars ".0"
    else ts.take p.toNat ++ [Text.dot] ++ ts.drop p.toNat
  else
    match ts with
    | [] => []
    | [t] => t :: powerText (p - 1)
    | t :: rest => t :: Text.dot :: rest ++ powerText (p - 1)

def decimalText (mantissa : Nat) (e : Int) : Text :=
  let ds := Text.digits mantissa
  layout (dropTrailingZeros ds) (ds.length + e)

def ofNumeral? (t : Text) : Option Binary64 :=
  match Numeral.scan? t with
  | some (n, []) => some n.toBinary64
  | _ => none

/-- The two decimals with `count` digits around the magnitude, the nearer first
and of two equally near ones the even one. -/
def neighbours (rank : Nat) (p : Int) (count : Nat) : List Text :=
  let e := p - count
  let s := scale 10 (ratio rank).1 (ratio rank).2 e
  let low := s.1 / s.2
  let near := divNearest s.1 s.2
  [decimalText near e, decimalText (if near = low then low + 1 else low) e]

def exactText (rank : Nat) : Text :=
  match exponent rank with
  | .ofNat k => decimalText (significand rank * Nat.pow 2 k) 0
  | .negSucc k => decimalText (significand rank * Nat.pow 5 (k + 1)) (.negSucc k)

def magnitudeText (rank : Fin rankLimit) : Text :=
  if rank.val = 0 then chars "0.0"
  else
    let p := pointFor (ratio rank).1 (ratio rank).2
    let candidates := (List.range 17).flatMap (fun i => neighbours rank p (i + 1))
    (candidates.find? (fun t => ofNumeral? t == some (.finite false rank))).getD (exactText rank)

def write : Binary64 → Text
  | .nan => chars "nan"
  | .infinite negative => if negative then chars "-inf" else chars "inf"
  | .finite negative rank =>
    if negative then Text.minus :: magnitudeText rank else magnitudeText rank

end Callboard.Binary64
