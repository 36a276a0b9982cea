import Callboard.Failure.Basic
import Callboard.Http.Address
import Callboard.Http.Percent
import Callboard.Number.Numeral
import Callboard.Text.Blank
import Callboard.Text.Encodable
import Callboard.Text.Quoted

/-!
# References

A reference to something on the web: a scheme with a colon, two slashes and an
authority, a path, a query behind a question mark and a fragment behind a hash. All
but the path may be missing. The authority is a host, perhaps with a user in front of
it and a number behind it, which says where the service is there.
-/

set_option autoImplicit false

namespace Callboard.Http

open Text

structure Reference where
  /-- The scheme in small letters; empty if there is none. -/
  scheme : Text
  host : Text
  portNumber : Option Int
  path : Text
  query : Option Text
  deriving DecidableEq

namespace Reference

inductive Fault where
  | tooLong
  | partTooLong (part : Text)
  | controlCode (c : CodePoint) (position : Nat)
  | version4 (host : Text)
  | version6 (host : Text)
  /-- A host that is a name has to be written in ASCII. -/
  | hostName (host : Text)
  | portNumber (written : Text)
  /-- A path behind an authority begins with a slash. -/
  | unrooted
  /-- What a path without scheme and authority must not begin with. -/
  | opening (start : Text)
  | unencodable (u : Unencodable)

def Fault.message : Fault → Text
  | .tooLong => chars "URL too long"
  | .partTooLong part => chars "URL component '" ++ part ++ chars "' too long"
  | .controlCode c position =>
    chars "Invalid non-printable ASCII character in URL, " ++ quoted [c] ++
      chars " at position " ++ decimal position ++ chars "."
  | .version4 host => chars "Invalid IPv4 address: " ++ quoted host
  | .version6 host => chars "Invalid IPv6 address: " ++ quoted host
  | .hostName host => chars "Invalid IDNA hostname: " ++ quoted host
  | .portNumber written => chars "Invalid port: " ++ quoted written
  | .unrooted => chars "For absolute URLs, path must be empty or begin with '/'"
  | .opening start => chars "Relative URLs cannot have a path starting with '" ++ start ++ chars "'"
  | .unencodable u => u.message

def Fault.toFailure (e : Fault) : Failure :=
  match e with
  | .unencodable _ => .basic (chars "UnicodeEncodeError") e.message
  | _ => .basic (chars "InvalidURL") e.message

def lengthLimit : Nat := 0x10000

def isPlain (except : Text) (c : CodePoint) : Bool := 0x20 < c && c < 0x7F && !except.contains c

def isQuerySafe : CodePoint → Bool := isPlain (chars "\"#<>")

def isPathSafe : CodePoint → Bool := isPlain (chars "\"#<>?`\x7b\x7d")

def isHostSafe (c : CodePoint) : Bool :=
  Percent.isUnreserved c || (chars "!$&'()*+,;=\"`\x7b\x7d%|\\").contains c

def isSchemePart (c : CodePoint) : Bool :=
  isLetter c || isAsciiDigit c || c == plus || c == dot || c == minus

def cutScheme (t : Text) : Text × Text :=
  match t with
  | colon :: r => ([], r)
  | c :: r =>
    match r.dropWhile isSchemePart with
    | colon :: rest => if isLetter c then (c :: r.takeWhile isSchemePart, rest) else ([], t)
    | _ => ([], t)
  | [] => ([], t)

def endsPath (c : CodePoint) : Bool := c == 0x3F || c == 0x23

def endsAuthority (c : CodePoint) : Bool := c == slash || endsPath c

def cutAuthority (t : Text) : Text × Text :=
  match t with
  | slash :: slash :: r =>
    (r.takeWhile (fun c => !endsAuthority c), r.dropWhile (fun c => !endsAuthority c))
  | t => ([], t)

def cutAtLast (sep : CodePoint) (t : Text) : Text × Text :=
  let parts := splitAt sep t
  (join [sep] parts.dropLast, parts.getLastD [])

/-- A host in brackets ends with the last bracket. -/
def cutHost (t : Text) : Text × Text :=
  match t with
  | openBracket :: r =>
    if r.contains closeBracket then
      (openBracket :: (cutAtLast closeBracket r).1 ++ [closeBracket],
        (cutAtLast closeBracket r).2)
    else (upTo colon t, t.drop (upTo colon t).length)
  | t => (upTo colon t, t.drop (upTo colon t).length)

def host? (t : Text) : Except Fault Text :=
  if Address.resemblesVersion4 t then
    if Address.isVersion4 t then .ok t else .error (.version4 t)
  else
    match t with
    | openBracket :: r =>
      if r.getLast? = some closeBracket then
        if Address.isVersion6 r.dropLast then .ok r.dropLast else .error (.version6 t)
      else if t.all isAscii then .ok (Percent.encode isHostSafe (lowerAscii t))
      else .error (.hostName t)
    | _ =>
      if t.all isAscii then .ok (Percent.encode isHostSafe (lowerAscii t))
      else .error (.hostName t)

/-- Blanks may stand around the number, and single underscores among its digits. -/
def integer? (t : Text) : Option Int :=
  let (negative, r) := Numeral.scanSign (strip t)
  let groups := splitAt underscore r
  if groups.any List.isEmpty then none
  else
    match groups.flatten.mapM digit? with
    | none => none
    | some ds =>
      if integerDigitLimit < ds.length then none
      else some (if negative then -(ofDigits ds : Int) else ofDigits ds)

def defaultPort? (scheme : Text) : Option Int :=
  if scheme = chars "http" ∨ scheme = chars "ws" then some 80
  else if scheme = chars "https" ∨ scheme = chars "wss" then some 443
  else if scheme = chars "ftp" then some 21
  else none

/-- The number that the scheme stands for is left out. -/
def portNumber? (scheme written : Text) : Except Fault (Option Int) :=
  if written.isEmpty then .ok none
  else
    match integer? written with
    | none => .error (.portNumber written)
    | some n => .ok (if defaultPort? scheme = some n then none else some n)

def resolve (segments : List Text) : List Text :=
  segments.foldl (fun output s =>
    if s = [dot] then output
    else if s = [dot, dot] then (if output = [[]] then output else output.dropLast)
    else output ++ [s]) []

def resolvePath (t : Text) : Text := join [slash] (resolve (splitAt slash t))

def checkPath (hasScheme hasAuthority : Bool) (path : Text) : Except Fault Unit :=
  if hasAuthority then
    match path with
    | [] => .ok ()
    | slash :: _ => .ok ()
    | _ => .error .unrooted
  else if hasScheme then .ok ()
  else
    match path with
    | slash :: slash :: _ => .error (.opening (chars "//"))
    | colon :: _ => .error (.opening (chars ":"))
    | _ => .ok ()

def checkEncodable (t : Text) : Except Fault Unit :=
  match t.find? isSurrogate with
  | none => .ok ()
  | some c => .error (.unencodable ⟨0, c, 1⟩)

def isControlCode (c : CodePoint) : Bool := c < 0x20 || c == 0x7F

def checkText (t : Text) : Except Fault Unit :=
  if lengthLimit < t.length then .error .tooLong
  else
    match firstRunFrom isControlCode 0 t with
    | none => .ok ()
    | some u => .error (.controlCode u.first u.position)

def parse (t : Text) : Except Fault Reference := do
  checkText t
  let (scheme, t) := cutScheme t
  let (authority, t) := cutAuthority t
  let (user, site) := cutAtLast 0x40 authority
  let (host, behind) := cutHost site
  let path := t.takeWhile (fun c => !endsPath c)
  let rest := t.dropWhile (fun c => !endsPath c)
  let query := if rest.head? = some 0x3F then some (upTo 0x23 rest.tail) else none
  checkEncodable user
  let host ← host? host
  let portNumber ← portNumber? scheme (match behind with
    | colon :: r => r
    | r => r)
  let hasAuthority := !user.isEmpty || !host.isEmpty || portNumber.isSome
  checkPath (!scheme.isEmpty) hasAuthority path
  checkEncodable path
  checkEncodable (query.getD [])
  checkEncodable ((beyond? 0x23 rest).getD [])
  let path := if !scheme.isEmpty || hasAuthority then resolvePath path else path
  return ⟨lowerAscii scheme, host, portNumber, path, query.map (Percent.encode isQuerySafe)⟩

def isAbsolute (r : Reference) : Bool := !r.scheme.isEmpty && !r.host.isEmpty

end Reference

end Callboard.Http
