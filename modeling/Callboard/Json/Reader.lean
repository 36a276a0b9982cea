import Callboard.Json.Escape
import Callboard.Number.Numeral
import Callboard.Value.Basic

/-!
# Reading JSON

Reads a text as one JSON value. The words for the infinities and the NaN are
numbers, and the last value of a repeated key counts. A fault carries what was
left of the text, so its position is how much was read.
-/

set_option autoImplicit false

namespace Callboard.Json

open Text

inductive Container where
  | array
  | object
  deriving DecidableEq

def Container.name : Container → Text
  | .array => chars "array"
  | .object => chars "object"

inductive Fault where
  /-- The text is not JSON; `rest` begins with what is wrong. -/
  | malformed (rest : Text)
  | tooManyDigits
  | tooDeep (container : Container)

def isSpace (c : CodePoint) : Bool := c == 0x20 || c == 0x09 || c == 0x0A || c == 0x0D

def skipSpace (t : Text) : Text := t.dropWhile isSpace

/-- `start` begins with the opening quote; what is behind it is still to be read. -/
def scanString (start : Text) : Text → Except Fault (List Piece × Text)
  | [] => .error (.malformed start)
  | quote :: r => .ok ([], r)
  | backslash :: letterU :: a :: b :: c :: d :: e :: r =>
    match hex4? a b c d with
    | none => .error (.malformed (letterU :: a :: b :: c :: d :: e :: r))
    | some n => (scanString start (e :: r)).map (fun p => (.escape n :: p.1, p.2))
  | backslash :: letterU :: r => .error (.malformed (letterU :: r))
  | [backslash] => .error (.malformed start)
  | backslash :: e :: r =>
    match letter? e with
    | none => .error (.malformed (backslash :: e :: r))
    | some c => (scanString start r).map (fun p => (.escape c :: p.1, p.2))
  | c :: r =>
    if c < 0x20 then .error (.malformed (c :: r))
    else (scanString start r).map (fun p => (.plain c :: p.1, p.2))

def readString (s : Text) : Except Fault (Text × Text) :=
  (scanString s s.tail).map (fun p => (assemble p.1, p.2))

def scanDigits : Text → List Nat × Text
  | [] => ([], [])
  | c :: r =>
    if isAsciiDigit c then ((c - 0x30) :: (scanDigits r).1, (scanDigits r).2) else ([], c :: r)

/-- A leading zero stands alone. -/
def scanWhole (s : Text) : List Nat × Text :=
  match s with
  | 0x30 :: r => ([0], r)
  | _ => scanDigits s

def scanFraction (s : Text) : Option (List Nat) × Text :=
  match s with
  | dot :: r =>
    match scanDigits r with
    | ([], _) => (none, s)
    | (ds, rest) => (some ds, rest)
  | _ => (none, s)

def scanPower (s : Text) : Option (Bool × List Nat) × Text :=
  match s with
  | c :: r =>
    if c == 0x65 || c == 0x45 then
      let (negative, r') := match r with
        | plus :: r' => (false, r')
        | minus :: r' => (true, r')
        | _ => (false, r)
      match scanDigits r' with
      | ([], _) => (none, s)
      | (ds, rest) => (some (negative, ds), rest)
    else (none, s)
  | [] => (none, s)

def scanNumeral? (s : Text) : Option (Numeral × Text) :=
  let (negative, s₁) := match s with
    | minus :: r => (true, r)
    | _ => (false, s)
  match scanWhole s₁ with
  | ([], _) => none
  | (whole, s₂) =>
    let (fraction, s₃) := scanFraction s₂
    let (power, rest) := scanPower s₃
    some (⟨negative, whole, fraction, power⟩, rest)

def readNumber (s : Text) : Except Fault (Value × Text) :=
  match scanNumeral? s with
  | none => .error (.malformed s)
  | some (n, rest) =>
    if n.isInteger then
      if integerDigitLimit < n.whole.length then .error .tooManyDigits else .ok (.int n.toInt, rest)
    else .ok (.float n.toBinary64, rest)

def words : List (Text × Value) := [
  (chars "null", .null), (chars "true", .bool true), (chars "false", .bool false),
  (chars "NaN", .float .nan), (chars "Infinity", .float (.infinite false)),
  (chars "-Infinity", .float (.infinite true))]

def word? (s : Text) : Option (Value × Text) :=
  words.findSome? (fun w => (after? w.1 s).map (fun rest => (w.2, rest)))

/-- At least one value follows. Each turn reads at least one code point, so the first
argument need not exceed the length. -/
def elements (item : Text → Except Fault (Value × Text)) :
    Nat → Text → Except Fault (List Value × Text)
  | 0, s => .error (.malformed s)
  | fuel + 1, s =>
    match item s with
    | .error e => .error e
    | .ok (v, r) =>
      match skipSpace r with
      | closeBracket :: rest => .ok ([v], rest)
      | comma :: r' => (elements item fuel (skipSpace r')).map (fun p => (v :: p.1, p.2))
      | r' => .error (.malformed r')

def members (item : Text → Except Fault (Value × Text)) :
    Nat → Text → Except Fault (List (Text × Value) × Text)
  | 0, s => .error (.malformed s)
  | fuel + 1, s =>
    match s with
    | quote :: _ =>
      match readString s with
      | .error e => .error e
      | .ok (k, r) =>
        match skipSpace r with
        | colon :: r₁ =>
          match item (skipSpace r₁) with
          | .error e => .error e
          | .ok (v, r₂) =>
            match skipSpace r₂ with
            | closeBrace :: rest => .ok ([(k, v)], rest)
            | comma :: r₃ =>
              (members item fuel (skipSpace r₃)).map (fun p => ((k, v) :: p.1, p.2))
            | r₃ => .error (.malformed r₃)
        | r₁ => .error (.malformed r₁)
    | _ => .error (.malformed s)

/-- The first argument is how many containers may still be opened. -/
def value : Nat → Text → Except Fault (Value × Text)
  | room, s =>
    match s with
    | [] => .error (.malformed [])
    | quote :: _ => (readString s).map (fun p => (.text p.1, p.2))
    | openBrace :: r =>
      match room with
      | 0 => .error (.tooDeep .object)
      | room + 1 =>
        match skipSpace r with
        | closeBrace :: rest => .ok (.mapping [], rest)
        | r' => (members (value room) (r'.length + 1) r').map
            (fun p => (Value.record (assignAll p.1), p.2))
    | openBracket :: r =>
      match room with
      | 0 => .error (.tooDeep .array)
      | room + 1 =>
        match skipSpace r with
        | closeBracket :: rest => .ok (.list [], rest)
        | r' => (elements (value room) (r'.length + 1) r').map (fun p => (.list p.1, p.2))
    | _ =>
      match word? s with
      | some p => .ok p
      | none => readNumber s

def readAll (depth : Nat) (t : Text) : Except Fault Value :=
  match value depth (skipSpace t) with
  | .error e => .error e
  | .ok (v, rest) =>
    match skipSpace rest with
    | [] => .ok v
    | r => .error (.malformed r)

inductive ReadError where
  | malformed (position : Nat)
  | tooManyDigits
  | tooDeep (container : Container)
  deriving DecidableEq

def read (depth : Nat) (t : Text) : Except ReadError Value :=
  match readAll depth t with
  | .ok v => .ok v
  | .error .tooManyDigits => .error .tooManyDigits
  | .error (.tooDeep container) => .error (.tooDeep container)
  | .error (.malformed rest) => .error (.malformed (t.length - rest.length))

end Callboard.Json
