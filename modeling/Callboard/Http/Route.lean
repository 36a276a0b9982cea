import Callboard.Http.Target

/-!
# Routes

Which requests are answered, and by what. A route has a method and a path. The
first route that fits both answers; where only paths fit, the method is not
allowed. A path that fits but for slashes at its end is sent on.
-/

set_option autoImplicit false

namespace Callboard.Http

open Text

inductive Endpoint where
  | health
  | ready
  | tasks
  | task (name : Text)
  | run
  deriving DecidableEq

inductive Method where
  | get
  | post
  | other (name : Text)
  deriving DecidableEq

namespace Method

def ofName (t : Text) : Method :=
  if t = chars "GET" then .get else if t = chars "POST" then .post else .other t

def name : Method → Text
  | .get => chars "GET"
  | .post => chars "POST"
  | .other t => t

def isHead (m : Method) : Bool := m == .other (chars "HEAD")

end Method

namespace Endpoint

def method : Endpoint → Method
  | .run => .post
  | _ => .get

end Endpoint

namespace Route

def healthPath : Text := chars "/api/v1/health/"
def readyPath : Text := chars "/api/v1/health/ready"
def tasksPath : Text := chars "/api/v1/tasks"
def taskPath : Text := chars "/api/v1/tasks/"
def runPath : Text := chars "/api/v1/tasks/run"

/-- A newline at the end of the path does not count. -/
def isPath (expected path : Text) : Bool := path == expected || path == expected ++ [newline]

/-- A name is one segment that is not empty. -/
def taskOf? (path : Text) : Option Text :=
  match after? taskPath path with
  | none => none
  | some name => if name.isEmpty || name.contains slash then none else some name

def fitting (path : Text) : List Endpoint :=
  (if isPath healthPath path then [.health] else []) ++
    (if isPath readyPath path then [.ready] else []) ++
    (if isPath tasksPath path then [.tasks] else []) ++
    (match taskOf? path with
      | none => []
      | some name => [.task name]) ++
    if isPath runPath path then [.run] else []

def alternative (path : Text) : Text :=
  if path.getLast? = some slash then
    (path.reverse.dropWhile (fun c => c == slash)).reverse
  else path ++ [slash]

/-- Nothing here answers for these pages, but a path may be meant for one of them. -/
def pagePaths : List Text :=
  [chars "/openapi.json", chars "/docs", chars "/docs/oauth2-redirect", chars "/redoc"]

def leadsSomewhere (path : Text) : Bool :=
  !(fitting path).isEmpty || pagePaths.any (fun page => isPath page path)

inductive Decision where
  | answer (endpoint : Endpoint)
  | methodNotAllowed (allowed : Method)
  | redirect (path : Text)
  | notFound
  deriving DecidableEq

def decide (m : Method) (path : Text) : Decision :=
  match (fitting path).find? (fun e => e.method == m) with
  | some e => .answer e
  | none =>
    match fitting path with
    | e :: _ => .methodNotAllowed e.method
    | [] =>
      if path ≠ [slash] && leadsSomewhere (alternative path) then .redirect (alternative path)
      else .notFound

end Route

end Callboard.Http
