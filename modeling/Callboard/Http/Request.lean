import Callboard.Http.Route

/-!
# Requests

What a client sends. Headers are sent in ASCII, and a body as UTF-8.
-/

set_option autoImplicit false

namespace Callboard.Http

open Text

structure Request where
  method : Method
  target : Target
  /-- Names of headers are compared without case, and the first of a name counts. -/
  headers : List (Text × Text)
  body : Option (List Byte)

namespace Request

def header (r : Request) (name : Text) : Option Text :=
  (r.headers.find? (fun h => lowerAscii h.1 == name)).map (fun h => h.2)

def encodingFailure (message : Text) : Failure := .basic (chars "UnicodeEncodeError") message

def encodeBody (body : Option Text) : Except Failure (Option (List Byte)) :=
  match body with
  | none => .ok none
  | some t =>
    match unencodable? t with
    | none => .ok (some (utf8 t))
    | some u => .error (encodingFailure u.message)

def headerTexts (headers : List (Text × Text)) : List Text :=
  headers.flatMap (fun h => [h.1, h.2])

def checkHeaders (headers : List (Text × Text)) : Except Failure Unit :=
  match (headerTexts headers).findSome? beyondAscii? with
  | none => .ok ()
  | some u => .error (encodingFailure u.asciiMessage)

def ofTexts (host method target : Text) (headers : List (Text × Text)) (body : Option Text) :
    Except Failure Request :=
  match encodeBody body, Target.parse host target, checkHeaders headers with
  | .error f, _, _ => .error f
  | .ok _, .error e, _ => .error e.toFailure
  | .ok _, .ok _, .error f => .error f
  | .ok body, .ok target, .ok _ => .ok ⟨.ofName (capitals method), target, headers, body⟩

end Request

end Callboard.Http
