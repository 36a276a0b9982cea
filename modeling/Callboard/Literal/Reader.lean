import Callboard.Json.Escape
import Callboard.Number.Numeral
import Callboard.Text.Blank
import Callboard.Text.Quoted
import Callboard.Value.Basic

/-!
# Reading literals

A literal is a text, a number, one of four words, a list or a mapping with quoted
keys. Blanks may stand between the tokens and a comma may end a list. Nothing is
evaluated, and nesting is limited. Every reader takes the text that is left and
returns a value with the text behind it; where it stops, it says why and what was
left.
-/

set_option autoImplicit false

namespace Callboard.Literal

open Text

inductive Reason where
  | nestingTooDeep
  | unexpectedEnd
  | unknownIdentifier (word : Text)
  | unexpectedCharacter (c : CodePoint)
  | unterminatedString
  | invalidEscape
  | numberOutOfRange
  | expectedKey
  | expectedColon
  | expectedSeparator (closer : CodePoint)
  | trailingText
  deriving DecidableEq

def Reason.message : Reason → Text
  | .nestingTooDeep => chars "nesting too deep"
  | .unexpectedEnd => chars "unexpected end of input"
  | .unknownIdentifier word => chars "unknown identifier '" ++ word ++ chars "'"
  | .unexpectedCharacter c => chars "unexpected character " ++ quoted [c]
  | .unterminatedString => chars "unterminated string"
  | .invalidEscape => chars "invalid string escape"
  | .numberOutOfRange => chars "number out of range"
  | .expectedKey => chars "expected quoted key"
  | .expectedColon => chars "expected ':' after key"
  | .expectedSeparator closer => chars "expected ',' or '" ++ [closer] ++ chars "'"
  | .trailingText => chars "unexpected trailing text"

structure Stop where
  reason : Reason
  rest : Text
  deriving DecidableEq

/-- The outermost value lies at depth 0, and no value lies deeper than this. -/
def maxDepth : Nat := 64

/-- A backslash takes the next code point with it. A newline ends no token. -/
def inside? : Text → Option (Text × Text)
  | [] => none
  | quote :: r => some ([], r)
  | newline :: _ => none
  | [backslash] => none
  | backslash :: c :: r =>
    if c = newline then none else (inside? r).map (fun p => (backslash :: c :: p.1, p.2))
  | c :: r => (inside? r).map (fun p => (c :: p.1, p.2))

def readText (s : Text) : Except Stop (Text × Text) :=
  match inside? s.tail with
  | none => .error ⟨.unterminatedString, s⟩
  | some (inside, rest) =>
    match Json.unescape? inside with
    | none => .error ⟨.invalidEscape, s⟩
    | some t => .ok (t, rest)

def ofNumeral? (n : Numeral) : Option Value :=
  if n.isInteger then
    if integerDigitLimit < n.whole.length then none else some (.int n.toInt)
  else some (.float n.toBinary64)

def isWordStart (c : CodePoint) : Bool := isLetter c || c == underscore || c == 0x24

def isWordPart (c : CodePoint) : Bool := isWordStart c || isAsciiDigit c

def ofWord? (word : Text) : Option Value :=
  if word = chars "true" then some (.bool true)
  else if word = chars "false" then some (.bool false)
  else if word = chars "null" then some .null
  else if word = chars "undefined" then some .null
  else none

def readAtom (s : Text) : Except Stop (Value × Text) :=
  match Numeral.scan? s with
  | some (n, rest) =>
    match ofNumeral? n with
    | some v => .ok (v, rest)
    | none => .error ⟨.numberOutOfRange, s⟩
  | none =>
    match s with
    | [] => .error ⟨.unexpectedEnd, s⟩
    | c :: r =>
      if isWordStart c then
        let word := c :: r.takeWhile isWordPart
        match ofWord? word with
        | some v => .ok (v, r.dropWhile isWordPart)
        | none => .error ⟨.unknownIdentifier word, s⟩
      else .error ⟨.unexpectedCharacter c, s⟩

def readSeparator (closer : CodePoint) (s : Text) : Except Stop (Bool × Text) :=
  match skipBlank s with
  | [] => .error ⟨.expectedSeparator closer, []⟩
  | c :: r =>
    if c = comma then .ok (true, r)
    else if c = closer then .ok (false, r)
    else .error ⟨.expectedSeparator closer, c :: r⟩

/-- Each turn reads at least one code point, so the first argument need not exceed the
length of the text. -/
def readItems (read : Text → Except Stop (Value × Text)) :
    Nat → Text → Except Stop (List Value × Text)
  | 0, s => .error ⟨.unexpectedEnd, s⟩
  | fuel + 1, s =>
    match skipBlank s with
    | closeBracket :: r => .ok ([], r)
    | s' =>
      match read s' with
      | .error e => .error e
      | .ok (v, r) =>
        match readSeparator closeBracket r with
        | .error e => .error e
        | .ok (false, r') => .ok ([v], r')
        | .ok (true, r') =>
          match readItems read fuel r' with
          | .error e => .error e
          | .ok (vs, rest) => .ok (v :: vs, rest)

def readPairs (read : Text → Except Stop (Value × Text)) :
    Nat → Text → Except Stop (List (Text × Value) × Text)
  | 0, s => .error ⟨.unexpectedEnd, s⟩
  | fuel + 1, s =>
    match skipBlank s with
    | closeBrace :: r => .ok ([], r)
    | quote :: r₀ =>
      match readText (quote :: r₀) with
      | .error e => .error e
      | .ok (k, r₁) =>
        match skipBlank r₁ with
        | colon :: r₂ =>
          match read r₂ with
          | .error e => .error e
          | .ok (v, r₃) =>
            match readSeparator closeBrace r₃ with
            | .error e => .error e
            | .ok (false, r₄) => .ok ([(k, v)], r₄)
            | .ok (true, r₄) =>
              match readPairs read fuel r₄ with
              | .error e => .error e
              | .ok (ps, rest) => .ok ((k, v) :: ps, rest)
        | r₂ => .error ⟨.expectedColon, r₂⟩
    | s' => .error ⟨.expectedKey, s'⟩

/-- The first argument is how many levels are still allowed. -/
def readValue : Nat → Text → Except Stop (Value × Text)
  | 0, s => .error ⟨.nestingTooDeep, s⟩
  | levels + 1, s =>
    match skipBlank s with
    | [] => .error ⟨.unexpectedEnd, []⟩
    | openBracket :: r =>
      match readItems (readValue levels) (r.length + 1) r with
      | .error e => .error e
      | .ok (vs, rest) => .ok (.list vs, rest)
    | openBrace :: r =>
      match readPairs (readValue levels) (r.length + 1) r with
      | .error e => .error e
      | .ok (ps, rest) => .ok (Value.record (assignAll ps), rest)
    | quote :: r =>
      match readText (quote :: r) with
      | .error e => .error e
      | .ok (t, rest) => .ok (.text t, rest)
    | s' => readAtom s'

def readWhole (t : Text) : Except Stop Value :=
  match readValue (maxDepth + 1) t with
  | .error e => .error e
  | .ok (v, rest) =>
    match skipBlank rest with
    | [] => .ok v
    | c :: r => .error ⟨.trailingText, c :: r⟩

/-- The position is the number of code points in front of what is wrong. -/
structure DecodeError where
  reason : Reason
  position : Nat
  deriving DecidableEq

def read (t : Text) : Except DecodeError Value :=
  match readWhole t with
  | .ok v => .ok v
  | .error stop => .error ⟨stop.reason, t.length - stop.rest.length⟩

end Callboard.Literal
