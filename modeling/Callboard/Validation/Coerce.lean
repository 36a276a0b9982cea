import Callboard.Number.Numeral
import Callboard.Text.Blank
import Callboard.Validation.Issue
import Callboard.Value.Basic

/-!
# Reading values as what is expected

A setting or a message may give a truth value as a word or a number, and an integer
as a text or a number without a fraction. Texts have to be texts, and where their
contents matter they must not hold surrogates.
-/

set_option autoImplicit false

namespace Callboard.Validation

open Text

def asText : Value → Except Complaint Text
  | .text t => .ok t
  | _ => .error .textType

def readable (t : Text) : Except Complaint Text :=
  if t.any isSurrogate then .error .textUnicode else .ok t

def falseWords : List Text :=
  [chars "0", chars "off", chars "f", chars "false", chars "n", chars "no"]

def trueWords : List Text :=
  [chars "1", chars "on", chars "t", chars "true", chars "y", chars "yes"]

def boolOfWord (t : Text) : Except Complaint Bool :=
  if falseWords.contains (lowerAscii t) then .ok false
  else if trueWords.contains (lowerAscii t) then .ok true
  else .error .boolParsing

/-- Half the number of integers that fit in eight bytes. -/
def wordHalf : Int := 0x8000000000000000

/-- A number that does not fit in eight bytes is no truth value at all. -/
def isWord (i : Int) : Bool := decide (-wordHalf ≤ i) && decide (i < wordHalf)

def boolOfInt (i : Int) : Except Complaint Bool :=
  if i = 0 then .ok false
  else if i = 1 then .ok true
  else if isWord i then .error .boolParsing
  else .error .boolType

/-- A number without a fraction that lies strictly between the ends of the eight
bytes. -/
def boolOfFloat (x : Binary64) : Except Complaint Bool :=
  match x.toInt? with
  | some i => if -wordHalf < i then boolOfInt i else .error .boolType
  | none => .error .boolType

def asBool : Value → Except Complaint Bool
  | .bool b => .ok b
  | .text t =>
    match readable t with
    | .error c => .error c
    | .ok t => boolOfWord t
  | .int i => boolOfInt i
  | .float x => boolOfFloat x
  | _ => .error .boolType

@[match_pattern] abbrev digitZero : CodePoint := 0x30

def signed : Text → Bool × Text
  | plus :: r => (false, r)
  | minus :: r => (true, r)
  | t => (false, t)

/-- One zero stays if no other digit follows. A number begins with a digit; behind zeros it
may begin with a minus. -/
def withoutZeros? (t : Text) : Option Text :=
  let isFiller (c : CodePoint) : Bool := c == digitZero || c == underscore
  match t with
  | [] => none
  | digitZero :: r =>
    let last := (digitZero :: r.takeWhile isFiller).getLastD digitZero
    match r.dropWhile isFiller with
    | [] => some [last]
    | dot :: r => some (last :: dot :: r)
    | c :: r => if isAsciiDigit c || c == minus then some (c :: r) else none
  | c :: r => if isAsciiDigit c then some (c :: r) else none

/-- A point is dropped if zeros and nothing else stand behind it. -/
def wholePart (t : Text) : Text :=
  match beyond? dot t with
  | none => t
  | some fraction =>
    if !fraction.isEmpty && fraction.all (fun c => c == digitZero) then upTo dot t else t

/-- Underscores stay if two of them stand together or one at either end. -/
def ungrouped (t : Text) : Text :=
  if (splitAt underscore t).any List.isEmpty then t else t.filter (fun c => c != underscore)

/-- A number that begins with a zero is the zero alone. -/
def plainDigits (t : Text) : Text :=
  match t with
  | digitZero :: _ => [digitZero]
  | t => t.takeWhile isAsciiDigit

/-- The minus counts as a digit when the number of digits is held against the limit, and so
do digits with something else behind them. -/
def intOfDigits (negative : Bool) (t : Text) : Except Complaint Int :=
  let ds := plainDigits t
  if integerDigitLimit < ds.length + (if negative then 1 else 0) then .error .intParsingSize
  else if ds.isEmpty || ds.length ≠ t.length then .error .intParsing
  else
    let n : Nat := ofDigits (ds.map (fun c => c - digitZero))
    .ok (if negative then -(n : Int) else n)

/-- The minus stands in front of all zeros or behind them, but not at both places. -/
def intOfText (t : Text) : Except Complaint Int :=
  let (negative, r) := signed (trim isWhiteSpace t)
  match (withoutZeros? r).map (fun s => ungrouped (wholePart s)) with
  | none => .error .intParsing
  | some (minus :: s) => if negative then .error .intParsing else intOfDigits true s
  | some s => intOfDigits negative s

def intOfFloat (x : Binary64) : Except Complaint Int :=
  if x.isFinite then
    match x.toInt? with
    | none => .error .intFromFloat
    | some i => if -wordHalf < i ∧ i < wordHalf then .ok i else .error .intParsingSize
  else .error .finiteNumber

def asInt : Value → Except Complaint Int
  | .int i => .ok i
  | .bool b => .ok (if b then 1 else 0)
  | .text t =>
    match readable t with
    | .error c => .error c
    | .ok t => intOfText t
  | .float x => intOfFloat x
  | _ => .error .intType

def asTexts : Value → Checked (List Text)
  | .list values => Checked.items (fun v => .here v (asText v)) values
  | v => .refuse v .listType

def required {α : Type} (k : Text) (check : Value → Checked α)
    (fields : List (Text × Value)) : Checked α :=
  match field? k fields with
  | none => (Checked.refuse (.record fields) .missing).inside k
  | some v => (check v).inside k

def optional {α : Type} (k : Text) (otherwise : α) (check : Value → Checked α)
    (fields : List (Text × Value)) : Checked α :=
  match field? k fields with
  | none => .ok otherwise
  | some v => (check v).inside k

def textOrNull : Value → Checked (Option Text)
  | .null => .ok none
  | v => .here v ((asText v).map some)

end Callboard.Validation
