import Callboard.Json.Escape
import Callboard.Text.Identifier
import Callboard.Value.Display

/-!
# Writing literals

Writes a value as a literal that reads back as the same value, a tuple as a list.
A written text also survives normalization, which changes apostrophes and
quotes bare keys without looking for strings: inside a text the apostrophe and
every separator that seems to introduce a key are escaped.
-/

set_option autoImplicit false

namespace Callboard.Literal

open Text

inductive WriteError where
  | nonFinite (x : Binary64)
  | keyNotText (typeName : Text)
  | unsupported (typeName : Text)
  | tooManyDigits
  deriving DecidableEq

def WriteError.message : WriteError → Text
  | .nonFinite x => chars "Non-finite number has no literal form: " ++ x.write
  | .keyNotText name => chars "Mapping keys must be strings, got " ++ name
  | .unsupported name => chars "Unsupported literal type: " ++ name
  | .tooManyDigits => Value.tooManyDigits

def unicodeEscape (c : CodePoint) : Text := chars "\\u" ++ hex 4 c

def hideApostrophes (t : Text) : Text :=
  t.flatMap (fun c => if c = apostrophe then unicodeEscape c else [c])

/-- Escapes every separator behind which a key seems to stand. -/
def hideKeys : Text → Text
  | [] => []
  | c :: r =>
    if opensKey c && (keyAhead? r).isSome then unicodeEscape c ++ hideKeys r else c :: hideKeys r

def writeText (t : Text) : Text := hideKeys (hideApostrophes (Json.string t))

mutual
def write : Value → Except WriteError Text
  | .null => .ok (chars "null")
  | .bool true => .ok (chars "true")
  | .bool false => .ok (chars "false")
  | .int i =>
    match Value.intText? i with
    | some t => .ok t
    | none => .error .tooManyDigits
  | .float x => if x.isFinite then .ok x.write else .error (.nonFinite x)
  | .text t => .ok (writeText t)
  | .list items =>
    match writeItems items with
    | .error e => .error e
    | .ok ts => .ok ([openBracket] ++ join (chars ", ") ts ++ [closeBracket])
  | .tuple items =>
    match writeItems items with
    | .error e => .error e
    | .ok ts => .ok ([openBracket] ++ join (chars ", ") ts ++ [closeBracket])
  | .mapping entries =>
    match writeEntries entries with
    | .error e => .error e
    | .ok ts => .ok ([openBrace] ++ join (chars ", ") ts ++ [closeBrace])
  | .bytes t => .error (.unsupported (Value.bytes t).typeName)
  | .set items => .error (.unsupported (Value.set items).typeName)
  | .object => .error (.unsupported Value.object.typeName)

def writeItems : List Value → Except WriteError (List Text)
  | [] => .ok []
  | v :: vs =>
    match write v with
    | .error e => .error e
    | .ok t =>
      match writeItems vs with
      | .error e => .error e
      | .ok ts => .ok (t :: ts)

def writeEntries : List (Value × Value) → Except WriteError (List Text)
  | [] => .ok []
  | (.text k, v) :: entries =>
    match write v with
    | .error e => .error e
    | .ok t =>
      match writeEntries entries with
      | .error e => .error e
      | .ok ts => .ok ((writeText k ++ chars ": " ++ t) :: ts)
  | (k, _) :: _ => .error (.keyNotText k.typeName)
end

end Callboard.Literal
