import Callboard.Failure.Build
import Callboard.Number.Fixed

/-!
# Message templates

A template is a text with fields, each a percent sign, some options and a letter
that says how a value is written: `%s` as it is shown, `%d` as an integer, `%.2f`
with two places. The values come in order, or by key out of a mapping. Two percent
signs stand for one.
-/

set_option autoImplicit false

namespace Callboard.Log.Template

open Text

structure Supply where
  values : List Value
  entries : Option (List (Value × Value))

/-- A single mapping that is not empty is looked up by key, and is also the one
value of a template without keys. -/
def Supply.of : List Value → Supply
  | [.mapping (e :: es)] => ⟨[.mapping (e :: es)], some (e :: es)⟩
  | values => ⟨values, none⟩

def typeError (message : Text) : Failure := .basic (chars "TypeError") message

def valueError (message : Text) : Failure := .basic (chars "ValueError") message

def overflow (message : Text) : Failure := .basic (chars "OverflowError") message

def Supply.next (s : Supply) : Except Failure (Value × Supply) :=
  match s.values with
  | [] => .error (typeError (chars "not enough arguments for format string"))
  | v :: vs => .ok (v, ⟨vs, s.entries⟩)

def Supply.select (s : Supply) (k : Text) : Except Failure Supply :=
  match s.entries with
  | none => .error (typeError (chars "format requires a mapping"))
  | some entries =>
    match entries.find? (fun e => e.1.sameKey (.text k)) with
    | some e => .ok ⟨[e.2], s.entries⟩
    | none => .error (.basic (chars "KeyError") (quoted k))

structure Field where
  left : Bool
  sign : Bool
  blank : Bool
  full : Bool
  zero : Bool
  width : Nat
  precision : Option Nat
  letter : CodePoint

/-- The first argument counts the parentheses that are open inside the key. -/
def key? : Nat → Text → Option (Text × Text)
  | _, [] => none
  | 0, closeParen :: r => some ([], r)
  | depth + 1, closeParen :: r => (key? depth r).map (fun p => (closeParen :: p.1, p.2))
  | depth, openParen :: r => (key? (depth + 1) r).map (fun p => (openParen :: p.1, p.2))
  | depth, c :: r => (key? depth r).map (fun p => (c :: p.1, p.2))

def isFlag (c : CodePoint) : Bool :=
  c == minus || c == plus || c == space || c == 0x23 || c == 0x30

def digitsAhead (t : Text) : List Nat := (t.takeWhile isAsciiDigit).map (fun c => c - 0x30)

def incomplete : Failure := valueError (chars "incomplete format")

def widthLimit : Nat := 0x7FFFFFFFFFFFFFFF
def precisionLimit : Nat := 0x7FFFFFFF

def sizeLimit : Nat := 0x100000000

def starred (limit : Nat) (word : Text) (s : Supply) : Except Failure (Int × Supply) :=
  match s.next with
  | .error e => .error e
  | .ok (v, s) =>
    match v with
    | .int i =>
      if (limit : Int) < i ∨ i < -(limit : Int) - 1 then
        .error (overflow (chars "Python int too large to convert to C " ++ word))
      else .ok (i, s)
    | .bool b => .ok (if b then 1 else 0, s)
    | _ => .error (typeError (chars "* wants int"))

def width (r : Text) (s : Supply) : Except Failure (Text × Nat × Bool × Supply) :=
  match r with
  | 0x2A :: r =>
    match starred widthLimit (chars "ssize_t") s with
    | .error e => .error e
    | .ok (i, s) => .ok (r, i.natAbs, i < 0, s)
  | r =>
    if widthLimit < ofDigits (digitsAhead r) then .error (valueError (chars "width too big"))
    else .ok (r.dropWhile isAsciiDigit, ofDigits (digitsAhead r), false, s)

def precision (r : Text) (s : Supply) : Except Failure (Text × Option Nat × Supply) :=
  match r with
  | dot :: 0x2A :: r =>
    match starred precisionLimit (chars "int") s with
    | .error e => .error e
    | .ok (i, s) => .ok (r, some i.toNat, s)
  | dot :: r =>
    if precisionLimit < ofDigits (digitsAhead r) then
      .error (valueError (chars "precision too big"))
    else .ok (r.dropWhile isAsciiDigit, some (ofDigits (digitsAhead r)), s)
  | r => .ok (r, none, s)

/-- The letter for the size of a number means nothing. -/
def skipSize : Text → Text
  | c :: r => if c = 0x68 ∨ c = 0x6C ∨ c = 0x4C then r else c :: r
  | [] => []

def selected (t : Text) (s : Supply) : Except Failure (Text × Supply) :=
  match t with
  | openParen :: r =>
    match s.entries with
    | none => .error (typeError (chars "format requires a mapping"))
    | some _ =>
      match key? 0 r with
      | none => .error (valueError (chars "incomplete format key"))
      | some (k, r) => (s.select k).map (fun s => (r, s))
  | t => .ok (t, s)

def field (t : Text) (s : Supply) : Except Failure (Field × Text × Supply) :=
  match selected t s with
  | .error e => .error e
  | .ok (r, s) =>
    let flags := r.takeWhile isFlag
    match width (r.dropWhile isFlag) s with
    | .error e => .error e
    | .ok (r, width, turned, s) =>
      match precision r s with
      | .error e => .error e
      | .ok (r, precision, s) =>
        match skipSize r with
        | [] => .error incomplete
        | letter :: r =>
          .ok (⟨flags.contains minus || turned, flags.contains plus, flags.contains space,
            flags.contains 0x23, flags.contains 0x30, width, precision, letter⟩, r, s)

structure Written where
  sign : Text
  mark : Text
  body : Text
  fill : CodePoint

/-- Zeros stand behind the sign and the mark, blanks in front of them. -/
def Written.layOut (w : Written) (f : Field) : Text :=
  let size := w.sign.length + w.mark.length + w.body.length
  let missing := f.width - size
  if f.left then w.sign ++ w.mark ++ w.body ++ List.replicate missing space
  else if w.fill = space then
    List.replicate missing space ++ w.sign ++ w.mark ++ w.body
  else w.sign ++ w.mark ++ List.replicate missing w.fill ++ w.body

def signed (f : Field) (t : Text) : Text × Text :=
  match t with
  | minus :: r => ([minus], r)
  | r => (if f.sign then [plus] else if f.blank then [space] else [], r)

def numeric (f : Field) (mark : Text) (t : Text) : Written :=
  ⟨(signed f t).1, mark, (signed f t).2, if f.zero then 0x30 else space⟩

def toUpper (t : Text) : Text := t.map (fun c => if isLower c then c - 0x20 else c)

def basedOnto (base : Nat) : Nat → Nat → Text → Text
  | 0, _, acc => acc
  | fuel + 1, n, acc =>
    if n < base then hexDigit n :: acc else basedOnto base fuel (n / base) (hexDigit (n % base) :: acc)

def based (base n : Nat) : Text := basedOnto base (n.log2 + 1) n []

def integerText (f : Field) (mark digits : Text) (negative : Bool) : Written :=
  let body := padLeft (f.precision.getD 0) 0x30 digits
  numeric f (if f.full then mark else []) (if negative then minus :: body else body)

def wrongType (letter : CodePoint) (v : Value) : Failure :=
  if letter = 0x6F ∨ letter = 0x78 ∨ letter = 0x58 then
    typeError (chars "%" ++ [letter] ++ chars " format: an integer is required, not " ++ v.typeName)
  else
    typeError (chars "%" ++ [letter] ++ chars " format: a real number is required, not " ++
      v.typeName)

def truncated (x : Binary64) : Except Failure Int :=
  match x with
  | .nan => .error (valueError (chars "cannot convert float NaN to integer"))
  | .infinite _ => .error (overflow (chars "cannot convert float infinity to integer"))
  | .finite negative rank =>
    let n : Nat := (Binary64.ratio rank).1 / (Binary64.ratio rank).2
    .ok (if negative then -(n : Int) else n)

def integerOf (letter : CodePoint) (v : Value) : Except Failure Int :=
  match v with
  | .int i => .ok i
  | .bool b => .ok (if b then 1 else 0)
  | .float x =>
    if letter = 0x6F ∨ letter = 0x78 ∨ letter = 0x58 then .error (wrongType letter v)
    else truncated x
  | v => .error (wrongType letter v)

def writeInteger (f : Field) (i : Int) : Except Failure Written :=
  let n := i.natAbs
  if f.letter = 0x6F then .ok (integerText f (chars "0o") (based 8 n) (i < 0))
  else if f.letter = 0x78 then .ok (integerText f (chars "0x") (based 16 n) (i < 0))
  else if f.letter = 0x58 then .ok (integerText f (chars "0X") (toUpper (based 16 n)) (i < 0))
  else
    match Value.intText? i with
    | none => .error (valueError Value.tooManyDigits)
    | some _ => .ok (integerText f [] (decimal n) (i < 0))

def realOf (v : Value) : Except Failure Binary64 :=
  match v with
  | .float x => .ok x
  | .int i =>
    let x := Binary64.nearest (i < 0) i.natAbs 1
    if x.isFinite then .ok x else .error (overflow (chars "int too large to convert to float"))
  | .bool b => .ok (.nearest false (if b then 1 else 0) 1)
  | v => .error (typeError (chars "must be real number, not " ++ v.typeName))

def formOf (letter : CodePoint) : Binary64.Form :=
  if letter = 0x66 ∨ letter = 0x46 then .fixed
  else if letter = 0x65 ∨ letter = 0x45 then .scientific
  else .general

def writeReal (f : Field) (x : Binary64) : Written :=
  let t := x.writeForm (formOf f.letter) f.full (f.precision.getD 6)
  numeric f [] (if isUpper f.letter then toUpper t else t)

def codePointOf (v : Value) : Except Failure CodePoint :=
  let inRange (i : Int) : Except Failure CodePoint :=
    if 0 ≤ i ∧ i < 0x110000 then .ok i.toNat
    else .error (overflow (chars "%c arg not in range(0x110000)"))
  match v with
  | .text [c] => .ok c
  | .int i => inRange i
  | .bool b => inRange (if b then 1 else 0)
  | _ => .error (typeError (chars "%c requires int or char"))

def asciiOnly (t : Text) : Text :=
  t.flatMap (fun c =>
    if c < 0x80 then [c]
    else if c < 0x100 then chars "\\x" ++ hex 2 c
    else if c < 0x10000 then chars "\\u" ++ hex 4 c
    else chars "\\U" ++ hex 8 c)

def shownAs (f : Field) (t : Text) : Written :=
  ⟨[], [], match f.precision with
    | none => t
    | some n => t.take n, space⟩

def isIntegerLetter (c : CodePoint) : Bool :=
  c == 0x64 || c == 0x69 || c == 0x75 || c == 0x6F || c == 0x78 || c == 0x58

def isRealLetter (c : CodePoint) : Bool :=
  c == 0x65 || c == 0x45 || c == 0x66 || c == 0x46 || c == 0x67 || c == 0x47

def textFor? (letter : CodePoint) (v : Value) : Option Text :=
  if letter = 0x73 then some v.shown
  else if letter = 0x72 then some v.display
  else if letter = 0x61 then some (asciiOnly v.display)
  else none

def writeValue (f : Field) (position : Nat) (v : Value) : Except Failure Written :=
  if isIntegerLetter f.letter then
    match integerOf f.letter v with
    | .error e => .error e
    | .ok i => writeInteger f i
  else if isRealLetter f.letter then (realOf v).map (writeReal f)
  else if f.letter = 0x63 then (codePointOf v).map (fun c => ⟨[], [], [c], space⟩)
  else
    match textFor? f.letter v with
    | some t =>
      if v.displayable then .ok (shownAs f t) else .error (valueError Value.tooManyDigits)
    | none =>
      let letter := if 31 ≤ f.letter ∧ f.letter < 128 then f.letter else 0x3F
      .error (valueError (chars "unsupported format character '" ++ [letter] ++ chars "' (0x" ++
        based 16 f.letter ++ chars ") at index " ++ decimal position))

/-- The first argument bounds the number of code points that are left, and `total` is the
length of the whole template. -/
def fillFrom (total : Nat) : Nat → Text → Supply → Except Failure Text
  | 0, _, s =>
    if s.values.isEmpty || s.entries.isSome then .ok []
    else .error (typeError (chars "not all arguments converted during string formatting"))
  | _ + 1, [], s =>
    if s.values.isEmpty || s.entries.isSome then .ok []
    else .error (typeError (chars "not all arguments converted during string formatting"))
  | fuel + 1, percent :: percent :: r, s => (fillFrom total fuel r s).map (percent :: ·)
  | fuel + 1, percent :: r, s =>
    match field r s with
    | .error e => .error e
    | .ok (f, r, s) =>
      match s.next with
      | .error e => .error e
      | .ok (v, s) =>
        match writeValue f (total - r.length - 1) v with
        | .error e => .error e
        | .ok w =>
          if sizeLimit < f.width then .error (.basic (chars "MemoryError") [])
          else (fillFrom total fuel r s).map (w.layOut f ++ ·)
  | fuel + 1, c :: r, s => (fillFrom total fuel r s).map (c :: ·)

/-- Without values the text is no template, and stands for itself. -/
def fill (t : Text) (values : List Value) : Except Failure Text :=
  if values.isEmpty then .ok t else fillFrom t.length (t.length + 1) t (.of values)

end Callboard.Log.Template
