import Callboard.Failure.Basic
import Callboard.Json.Escape
import Callboard.Value.Display

/-!
# Values as JSON

Writes a value as JSON in one of two styles. Keys that are not texts are written
as texts where JSON has a word for them; values that JSON cannot hold are refused.
-/

set_option autoImplicit false

namespace Callboard.Json

open Text

structure Style where
  itemSeparator : Text
  keySeparator : Text
  /-- The infinities and the NaN are written as words that are not JSON. -/
  nonFinite : Bool

def spaced : Style := ⟨chars ", ", chars ": ", true⟩

def compact : Style := ⟨chars ",", chars ":", false⟩

inductive WriteError where
  | unserializable (typeName : Text)
  | keyType (typeName : Text)
  | tooManyDigits
  | nonFinite

def WriteError.message : WriteError → Text
  | .unserializable name => chars "Object of type " ++ name ++ chars " is not JSON serializable"
  | .keyType name => chars "keys must be str, int, float, bool or None, not " ++ name
  | .tooManyDigits => Value.tooManyDigits
  | .nonFinite => chars "Out of range float values are not JSON compliant"

def WriteError.toFailure (e : WriteError) : Failure :=
  match e with
  | .unserializable _ => .basic (chars "TypeError") e.message
  | .keyType _ => .basic (chars "TypeError") e.message
  | .tooManyDigits => .basic (chars "ValueError") e.message
  | .nonFinite => .basic (chars "ValueError") e.message

def number (style : Style) : Binary64 → Except WriteError Text
  | .nan => if style.nonFinite then .ok (chars "NaN") else .error .nonFinite
  | .infinite false => if style.nonFinite then .ok (chars "Infinity") else .error .nonFinite
  | .infinite true => if style.nonFinite then .ok (chars "-Infinity") else .error .nonFinite
  | x => .ok x.write

def integer (i : Int) : Except WriteError Text :=
  match Value.intText? i with
  | some t => .ok t
  | none => .error .tooManyDigits

def key (style : Style) : Value → Except WriteError Text
  | .text t => .ok t
  | .float x => number style x
  | .bool true => .ok (chars "true")
  | .bool false => .ok (chars "false")
  | .null => .ok (chars "null")
  | .int i => integer i
  | v => .error (.keyType v.typeName)

mutual
def write (style : Style) : Value → Except WriteError Text
  | .null => .ok (chars "null")
  | .bool true => .ok (chars "true")
  | .bool false => .ok (chars "false")
  | .int i => integer i
  | .float x => number style x
  | .text t => .ok (string t)
  | .list items =>
    match writeItems style items with
    | .error e => .error e
    | .ok ts => .ok ([openBracket] ++ join style.itemSeparator ts ++ [closeBracket])
  | .tuple items =>
    match writeItems style items with
    | .error e => .error e
    | .ok ts => .ok ([openBracket] ++ join style.itemSeparator ts ++ [closeBracket])
  | .mapping entries =>
    match writeEntries style entries with
    | .error e => .error e
    | .ok ts => .ok ([openBrace] ++ join style.itemSeparator ts ++ [closeBrace])
  | .bytes t => .error (.unserializable (Value.bytes t).typeName)
  | .set items => .error (.unserializable (Value.set items).typeName)
  | .object => .error (.unserializable Value.object.typeName)

def writeItems (style : Style) : List Value → Except WriteError (List Text)
  | [] => .ok []
  | v :: vs =>
    match write style v with
    | .error e => .error e
    | .ok t =>
      match writeItems style vs with
      | .error e => .error e
      | .ok ts => .ok (t :: ts)

def writeEntries (style : Style) : List (Value × Value) → Except WriteError (List Text)
  | [] => .ok []
  | (k, v) :: entries =>
    match key style k with
    | .error e => .error e
    | .ok kt =>
      match write style v with
      | .error e => .error e
      | .ok vt =>
        match writeEntries style entries with
        | .error e => .error e
        | .ok ts => .ok ((string kt ++ style.keySeparator ++ vt) :: ts)
end

end Callboard.Json
