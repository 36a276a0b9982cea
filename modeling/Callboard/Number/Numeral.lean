import Callboard.Number.Binary64
import Callboard.Text.DecimalDigit

/-!
# Numerals

A numeral is an optional sign, digits with an optional point among or in front of
them, and an optional power of ten. The digits may be those of any script.
-/

set_option autoImplicit false

namespace Callboard

structure Numeral where
  negative : Bool
  whole : List Nat
  fraction : Option (List Nat)
  power : Option (Bool × List Nat)
  deriving DecidableEq

namespace Numeral

def scanSign : Text → Bool × Text
  | Text.plus :: r => (false, r)
  | Text.minus :: r => (true, r)
  | r => (false, r)

def scanDigits : Text → List Nat × Text
  | [] => ([], [])
  | c :: r =>
    match Text.digit? c with
    | some d => (d :: (scanDigits r).1, (scanDigits r).2)
    | none => ([], c :: r)

def isExponentMark (c : CodePoint) : Bool := c == 0x65 || c == 0x45

/-- Without a digit behind the mark nothing is read. -/
def scanPower (s : Text) : Option (Bool × List Nat) × Text :=
  match s with
  | [] => (none, [])
  | c :: r =>
    if isExponentMark c then
      match scanDigits (scanSign r).2 with
      | ([], _) => (none, s)
      | (d :: ds, rest) => (some ((scanSign r).1, d :: ds), rest)
    else (none, s)

def scan? (s : Text) : Option (Numeral × Text) :=
  let (negative, s₁) := scanSign s
  match scanDigits s₁ with
  | ([], Text.dot :: s₂) =>
    match scanDigits s₂ with
    | ([], _) => none
    | (d :: ds, s₃) =>
      let (power, rest) := scanPower s₃
      some (⟨negative, [], some (d :: ds), power⟩, rest)
  | ([], _) => none
  | (d :: ds, Text.dot :: s₂) =>
    let (fraction, s₃) := scanDigits s₂
    let (power, rest) := scanPower s₃
    some (⟨negative, d :: ds, some fraction, power⟩, rest)
  | (d :: ds, s₂) =>
    let (power, rest) := scanPower s₂
    some (⟨negative, d :: ds, none, power⟩, rest)

def isInteger (n : Numeral) : Bool := n.fraction.isNone && n.power.isNone

def toInt (n : Numeral) : Int :=
  if n.negative then -(Text.ofDigits n.whole : Int) else Text.ofDigits n.whole

def powerValue (n : Numeral) : Int :=
  match n.power with
  | none => 0
  | some (true, ds) => -(Text.ofDigits ds : Int)
  | some (false, ds) => Text.ofDigits ds

def toBinary64 (n : Numeral) : Binary64 :=
  let fraction := n.fraction.getD []
  .ofDecimal n.negative (Text.ofDigits (n.whole ++ fraction)) (n.powerValue - fraction.length)

end Numeral

def integerDigitLimit : Nat := 4300

end Callboard
