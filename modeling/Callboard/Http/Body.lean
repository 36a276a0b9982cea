import Callboard.Json.Encoding
import Callboard.Json.Reader
import Callboard.Text.Blank

/-!
# Request bodies

What a body holds. It is read as JSON if its content type says so. Any other body is
there, but is no value.
-/

set_option autoImplicit false

namespace Callboard.Http

open Text

inductive Body where
  | absent
  | value (v : Value)
  | foreign
  /-- The body is not JSON; the position is where that shows. -/
  | malformed (position : Nat)
  | unreadable

namespace Body

def mediaType (contentType : Text) : Text := lowerAscii (strip (upTo 0x3B contentType))

def endsWith (tail t : Text) : Bool := (after? tail.reverse t.reverse).isSome

/-- A type that is not a main type and a subtype says nothing at all. -/
def saysJson (contentType : Text) : Bool :=
  match splitAt slash (mediaType contentType) with
  | [main, sub] =>
    main == chars "application" && (sub == chars "json" || endsWith (chars "+json") sub)
  | _ => false

def nestingLimit : Nat := 962

def ofJson (t : Text) : Body :=
  match Json.read nestingLimit t with
  | .ok v => .value v
  | .error (.malformed position) => .malformed position
  | .error _ => .unreadable

/-- Without bytes there is no body, and without a content type it is no value. -/
def read (contentType : Option Text) (bytes : Option (List Byte)) : Body :=
  match bytes with
  | none => .absent
  | some [] => .absent
  | some bs =>
    if contentType.any saysJson then
      match Json.textOfBytes? bs with
      | some t => ofJson t
      | none => .unreadable
    else .foreign

end Body

end Callboard.Http
