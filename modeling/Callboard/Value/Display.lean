import Callboard.Number.Shortest
import Callboard.Text.Quoted
import Callboard.Value.Basic

/-!
# How values are shown

The form in which values stand in messages. Texts inside lists and mappings are
quoted. An integer has no form beyond the digit limit.
-/

set_option autoImplicit false

namespace Callboard.Value

def tooManyDigits : Text :=
  chars "Exceeds the limit (4300 digits) for integer string conversion; " ++
    chars "use sys.set_int_max_str_digits() to increase the limit"

def intText? (i : Int) : Option Text :=
  if integerDigitLimit < (Text.digits i.natAbs).length then none else some (Text.signedDecimal i)

def intText (i : Int) : Text := (intText? i).getD tooManyDigits

def boolText (b : Bool) : Text := if b then chars "True" else chars "False"

/-- One byte, given as a code point below 256. -/
def byteText (delimiter c : CodePoint) : Text :=
  if c = delimiter ∨ c = Text.backslash then [Text.backslash, c]
  else if c = 0x0A then chars "\\n"
  else if c = 0x0D then chars "\\r"
  else if c = 0x09 then chars "\\t"
  else if 0x20 ≤ c ∧ c < 0x7F then [c]
  else chars "\\x" ++ Text.hex 2 c

mutual
def display : Value → Text
  | .null => chars "None"
  | .bool b => boolText b
  | .int i => intText i
  | .float x => x.write
  | .text t => Text.quoted t
  | .list items => [Text.openBracket] ++ Text.join (chars ", ") (displays items) ++
      [Text.closeBracket]
  | .tuple [v] => [Text.openParen] ++ display v ++ chars ",)"
  | .tuple items => [Text.openParen] ++ Text.join (chars ", ") (displays items) ++
      [Text.closeParen]
  | .mapping entries => [Text.openBrace] ++
      Text.join (chars ", ") (displayEntries entries) ++ [Text.closeBrace]
  | .bytes t =>
    let delimiter := Text.delimiterFor t
    [0x62, delimiter] ++ t.flatMap (byteText delimiter) ++ [delimiter]
  | .set [] => chars "set()"
  | .set (v :: vs) => [Text.openBrace] ++
      Text.join (chars ", ") (display v :: displays vs) ++ [Text.closeBrace]
  | .object => chars "<object object>"

def displays : List Value → List Text
  | [] => []
  | v :: vs => display v :: displays vs

def displayEntries : List (Value × Value) → List Text
  | [] => []
  | (k, v) :: entries => (display k ++ chars ": " ++ display v) :: displayEntries entries
end

mutual
def displayable : Value → Bool
  | .int i => (intText? i).isSome
  | .list items => allDisplayable items
  | .tuple items => allDisplayable items
  | .set items => allDisplayable items
  | .mapping entries => entriesDisplayable entries
  | _ => true

def allDisplayable : List Value → Bool
  | [] => true
  | v :: vs => displayable v && allDisplayable vs

def entriesDisplayable : List (Value × Value) → Bool
  | [] => true
  | (k, v) :: entries => displayable k && displayable v && entriesDisplayable entries
end

/-- A text stands for itself. -/
def shown : Value → Text
  | .text t => t
  | v => display v

end Callboard.Value
