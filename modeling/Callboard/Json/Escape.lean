import Callboard.Text.Basic

/-!
# Escapes of JSON strings

A written string escapes the quote, the backslash and the control characters
below the space, and nothing else. Reading knows the other escapes too; an
escaped high surrogate directly before an escaped low one is one code point.
-/

set_option autoImplicit false

namespace Callboard.Json

open Text

def escaped (c : CodePoint) : Text :=
  if c = quote then chars "\\\""
  else if c = backslash then chars "\\\\"
  else if c = 0x0A then chars "\\n"
  else if c = 0x0D then chars "\\r"
  else if c = 0x09 then chars "\\t"
  else if c = 0x0C then chars "\\f"
  else if c = 0x08 then chars "\\b"
  else if c < 0x20 then chars "\\u" ++ hex 4 c
  else [c]

def string (t : Text) : Text := [quote] ++ t.flatMap escaped ++ [quote]

inductive Piece where
  | plain (c : CodePoint)
  | escape (c : CodePoint)
  deriving DecidableEq

def letter? (c : CodePoint) : Option CodePoint :=
  if c = quote ∨ c = backslash ∨ c = slash then some c
  else if c = 0x62 then some 0x08
  else if c = 0x66 then some 0x0C
  else if c = 0x6E then some 0x0A
  else if c = 0x72 then some 0x0D
  else if c = 0x74 then some 0x09
  else none

def hex4? (a b c d : CodePoint) : Option Nat :=
  match hexValue? a, hexValue? b, hexValue? c, hexValue? d with
  | some a, some b, some c, some d => some (((a * 16 + b) * 16 + c) * 16 + d)
  | _, _, _, _ => none

@[match_pattern] abbrev letterU : CodePoint := 0x75

def pieces? : Text → Option (List Piece)
  | [] => some []
  | backslash :: letterU :: a :: b :: c :: d :: r =>
    match hex4? a b c d with
    | none => none
    | some n => (pieces? r).map (.escape n :: ·)
  | backslash :: e :: r =>
    match letter? e with
    | none => none
    | some c => (pieces? r).map (.escape c :: ·)
  | [backslash] => none
  | c :: r => (pieces? r).map (.plain c :: ·)

def assemble : List Piece → Text
  | [] => []
  | .plain c :: ps => c :: assemble ps
  | .escape high :: .escape low :: ps =>
    if isHighSurrogate high && isLowSurrogate low then joinSurrogates high low :: assemble ps
    else high :: assemble (.escape low :: ps)
  | .escape c :: ps => c :: assemble ps

def unescape? (t : Text) : Option Text := (pieces? t).map assemble

end Callboard.Json
