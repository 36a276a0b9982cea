import Callboard.Json.Writer
import Callboard.Text.Encodable

/-!
# JSON content

The text of a response body. It is strict JSON without blanks, and it has to have
an encoding in UTF-8.
-/

set_option autoImplicit false

namespace Callboard.Http

def unencodable (u : Text.Unencodable) : Failure := .basic (chars "UnicodeEncodeError") u.message

def content (v : Value) : Except Failure Text :=
  match Json.write Json.compact v with
  | .error e => .error e.toFailure
  | .ok t =>
    match Text.unencodable? t with
    | none => .ok t
    | some u => .error (unencodable u)

mutual
def unencodableIn? : Value → Option Text.Unencodable
  | .text t => Text.unencodable? t
  | .list items => unencodableAmong? items
  | .mapping entries => unencodableUnder? entries
  | _ => none

def unencodableAmong? : List Value → Option Text.Unencodable
  | [] => none
  | v :: vs => (unencodableIn? v).or (unencodableAmong? vs)

def unencodableUnder? : List (Value × Value) → Option Text.Unencodable
  | [] => none
  | (_, v) :: entries => (unencodableIn? v).or (unencodableUnder? entries)
end

/-- The texts of the value are encoded one by one. -/
def describedContent (v : Value) : Except Failure Text :=
  match unencodableIn? v with
  | none => content v
  | some u => .error (.basic (chars "PydanticSerializationError")
      (chars "Error serializing to JSON: " ++ (unencodable u).headline))

end Callboard.Http
