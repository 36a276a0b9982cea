import Callboard.Http.Reference

/-!
# Request targets

What a request asks for, and of which host. A reference that says where it leads to
is the target; any other is put behind the host that the client knows. The server
decodes the path as UTF-8 before it looks at it.
-/

set_option autoImplicit false

namespace Callboard.Http

open Text

structure Target where
  scheme : Text
  host : Text
  portNumber : Option Int
  path : Text
  query : Text
  deriving DecidableEq

namespace Target

def rooted (t : Text) : Text := slash :: t.dropWhile (fun c => c == slash)

def decodedPath (t : Text) : Text := Percent.decode (if t.isEmpty then [slash] else t)

def checkLengths (path query : Text) : Except Reference.Fault Unit :=
  if Reference.lengthLimit < (Percent.encode Reference.isPathSafe path).length then
    .error (.partTooLong (chars "path"))
  else if Reference.lengthLimit < query.length then .error (.partTooLong (chars "query"))
  else .ok ()

def ofReference (host : Text) (r : Reference) : Except Reference.Fault Target :=
  let query := r.query.getD []
  if r.isAbsolute then .ok ⟨r.scheme, r.host, r.portNumber, decodedPath r.path, query⟩
  else
    match checkLengths (rooted r.path) query with
    | .error e => .error e
    | .ok _ =>
      .ok ⟨chars "http", host, none, decodedPath (Reference.resolvePath (rooted r.path)), query⟩

def parse (host t : Text) : Except Reference.Fault Target :=
  match Reference.parse t with
  | .error e => .error e
  | .ok r => ofReference host r

/-- What would end the path in a location is in percent form. -/
def writtenPath (path : Text) : Text :=
  Percent.encode (fun c => c != 0x3F && c != 0x23 && c != backslash) path

/-- A tab, a newline and a return are left out. -/
def loggedPath (t : Target) : Text :=
  (writtenPath t.path).filter (fun c => c != 0x09 && c != newline && c != 0x0D)

def portText (p : Int) : Text := colon :: signedDecimal p

def site (t : Target) : Text :=
  (if t.host.contains colon then [openBracket] ++ t.host ++ [closeBracket] else t.host) ++
    (t.portNumber.map portText).getD []

/-- A number that is not known is named all the same. -/
def serverSite (t : Target) : Text :=
  t.host ++
    match t.portNumber with
    | none => chars ":None"
    | some p => if Reference.defaultPort? t.scheme = some p then [] else portText p

def isNamePart (c : CodePoint) : Bool :=
  Percent.isUnreserved c || (chars "!$&'()*+,;=%").contains c

def isAddressPart (c : CodePoint) : Bool := (hexValue? c).isSome || c == colon || c == dot

def isSite (t : Text) : Bool :=
  let (host, behind) := Reference.cutHost t
  (match host with
    | [] => false
    | openBracket :: r => r.length ≠ 1 && r.dropLast.all isAddressPart && r.getLast? == some closeBracket
    | t => t.all isNamePart) &&
    match behind with
    | [] => true
    | colon :: r => r.all isAsciiDigit
    | _ => false

def isLocationSafe (c : CodePoint) : Bool :=
  Percent.isUnreserved c || (chars ":/%#?=@[]!$&'()*+,;").contains c

/-- The client may have asked for a host by another name. -/
def location (t : Target) (asked : Option Text) (path : Text) : Text :=
  let name := asked.getD t.site
  Percent.encode isLocationSafe (t.scheme ++ chars "://" ++
    (if isSite name then name else t.serverSite) ++ writtenPath path ++
    if t.query.isEmpty then [] else 0x3F :: t.query)

end Target

end Callboard.Http
