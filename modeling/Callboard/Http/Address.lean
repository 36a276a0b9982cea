import Callboard.Text.Basic

/-!
# Addresses

Hosts that are numbers. An address of version 4 is four decimal octets between dots.
One of version 6 is eight groups of hexadecimal digits between colons; two colons
stand for as many groups of zeros as are missing, an address of version 4 may stand
for the last two groups, and a zone may follow behind a percent sign.
-/

set_option autoImplicit false

namespace Callboard.Http.Address

open Text

def isOctet (t : Text) : Bool :=
  !t.isEmpty && t.length ≤ 3 && t.all isAsciiDigit && (t.length == 1 || t.head? != some 0x30) &&
    ofDigits (t.map (fun c => c - 0x30)) ≤ 255

def isVersion4 (t : Text) : Bool :=
  let octets := splitAt dot t
  octets.length == 4 && octets.all isOctet

def isGroup (t : Text) : Bool :=
  !t.isEmpty && t.length ≤ 4 && t.all (fun c => (hexValue? c).isSome)

/-- An address of version 4 counts as two groups, but may stand only at the end of
everything. -/
def countGroups? (final : Bool) : List Text → Option Nat
  | [] => some 0
  | [t] =>
    if isGroup t then some 1 else if final && isVersion4 t then some 2 else none
  | t :: ts => if isGroup t then (countGroups? final ts).map (fun n => n + 1) else none

def groups (t : Text) : List Text := if t.isEmpty then [] else splitAt colon t

def cutAtGap? : Text → Option (Text × Text)
  | [] => none
  | [_] => none
  | a :: b :: r =>
    if a = colon ∧ b = colon then some ([], r)
    else (cutAtGap? (b :: r)).map (fun p => (a :: p.1, p.2))

def isUnzoned (t : Text) : Bool :=
  match cutAtGap? t with
  | none => countGroups? true (groups t) == some 8
  | some (front, back) =>
    match countGroups? false (groups front), countGroups? true (groups back) with
    | some m, some n => m + n ≤ 7
    | _, _ => false

def isVersion6 (t : Text) : Bool :=
  !t.contains slash &&
    match beyond? percent t with
    | none => isUnzoned t
    | some zone => !zone.isEmpty && !zone.contains percent && isUnzoned (upTo percent t)

/-- One code point, whatever it is, stands between two numbers. The first argument counts
the numbers that are still to begin; a digit was just read. -/
def goesOnAsVersion4 : Nat → Text → Bool
  | n, [] => n == 0
  | n, [c] => n == 0 && isAsciiDigit c
  | n, c :: d :: r =>
    (isAsciiDigit c && goesOnAsVersion4 n (d :: r)) ||
      (n != 0 && isAsciiDigit d && goesOnAsVersion4 (n - 1) r)

def resemblesVersion4 (t : Text) : Bool :=
  match t with
  | [] => false
  | c :: r => isAsciiDigit c && goesOnAsVersion4 3 r

end Callboard.Http.Address
