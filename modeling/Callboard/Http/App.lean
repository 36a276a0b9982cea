import Callboard.Builtin
import Callboard.Dispatch.Execute
import Callboard.Http.Body
import Callboard.Http.Content
import Callboard.Http.Request
import Callboard.Message

/-!
# The HTTP interface

Answers requests about tasks and runs them. Whatever goes wrong is answered with
the envelope of a problem: a body that does not pass validation is the client's
fault, and a failure that nothing else answers is an internal one, of which the
client learns nothing.
-/

set_option autoImplicit false

namespace Callboard.Http

structure Response where
  status : Int
  headers : List (Text × Text)
  body : Text
  deriving DecidableEq

inductive Access where
  | ready
  /-- The tasks are set up by the first request that needs them. -/
  | unopened (settings : Except SettingsFailure Settings)
  /-- Whoever asks for the tasks fails. -/
  | broken (failure : Failure)

structure App where
  access : Access
  policy : Policy
  world : World
  limit : RunRequest.Limit
  origins : List Text

namespace App

def logger : Text := chars "jobrunner.api.error_handlers"

def emit (a : App) (rs : List Log.Record) : App :=
  ⟨a.access, a.policy, a.world.emit rs, a.limit, a.origins⟩

def opened (a : App) : App × Option Failure :=
  match a.access with
  | .unopened (.ok s) =>
    (⟨.ready, .ofStrict s.strictArguments,
      a.world.install Builtin.registry, a.limit, a.origins⟩, none)
  | .unopened (.error e) => (a, some e.toFailure)
  | _ => (a, none)

def fault? (a : App) : Option Failure :=
  match a.access with
  | .broken f => some f
  | _ => none

inductive Result where
  | reply (status : Int) (v : Value)
  /-- A reply whose form is described beforehand. -/
  | described (v : Value)
  | problem (p : Problem)
  | invalid (issues : List Issue) (target : Option Text)
  | raised (f : Failure)

def detail (i : Issue) : Value :=
  .record [(chars "field", .text (Text.join [Text.dot] i.location)),
    (chars "message", .text i.complaint.message), (chars "type", .text i.complaint.code)]

def details (issues : List Issue) : Value := .list (issues.map detail)

def problemRecord (p : Problem) (c : Context) (path : Text) : Log.Record :=
  ⟨Log.Level.error, logger, p.code ++ chars " on " ++ path ++ chars ": " ++ p.message,
    [(Log.errorCodeKey, .text p.code), (Log.pathKey, .text path),
      (Log.taskNameKey, .ofText? c.taskName)], none⟩

def invalidRecord (details : Value) (path : Text) : Log.Record :=
  ⟨Log.Level.warning, logger,
    chars "Validation error on " ++ path ++ chars ": " ++ details.display,
    [(Log.errorCodeKey, .text (Problem.invalidRequest details).code),
      (Log.pathKey, .text path)], none⟩

def unhandledRecord (f : Failure) (path : Text) : Log.Record :=
  ⟨Log.Level.error, logger,
    chars "Unhandled exception on " ++ path ++ chars ": " ++ f.message,
    [(Log.errorCodeKey, .text Problem.internalFailure.code), (Log.pathKey, .text path)], some f⟩

def unhandled (time : Timestamp) : Except Failure Response :=
  (content (Problem.internalFailure.envelope (.fresh time))).map (fun t => ⟨500, [], t⟩)

def rendered (time : Timestamp) (path : Text) (status : Int) (headers : List (Text × Text))
    (body : Except Failure Text) (noted : List Log.Record) :
    List Log.Record × Except Failure Response :=
  match body with
  | .ok t => (noted, .ok ⟨status, headers, t⟩)
  | .error f => (noted ++ [unhandledRecord f path], unhandled time)

/-- A failure that is not ordinary is answered by no response. -/
def answer (time : Timestamp) (path : Text) (headers : List (Text × Text)) :
    Result → List Log.Record × Except Failure Response
  | .reply status v => rendered time path status headers (content v) []
  | .described v => rendered time path 200 headers (describedContent v) []
  | .problem p =>
    let c := p.note (.fresh time)
    rendered time path p.status headers (content (p.envelope c)) [problemRecord p c path]
  | .invalid issues target =>
    let p := Problem.invalidRequest (details issues)
    let c : Context := ⟨time, none, target, .null⟩
    rendered time path p.status headers (content (p.envelope c))
      [invalidRecord (details issues) path]
  | .raised f =>
    if f.ordinary then ([unhandledRecord f path], unhandled time) else ([], .error f)

def healthReport : Value :=
  .record [(chars "status", .text (chars "healthy")),
    (chars "service", .text (chars "jobrunner-api")), (chars "version", .text (chars "1.0.0"))]

def readiness (size : Nat) : Result :=
  if size = 0 then
    .reply 503 (.record [(chars "status", .text (chars "not_ready")),
      (chars "reason", .text (chars "no_tasks_registered"))])
  else
    .reply 200 (.record [(chars "status", .text (chars "ready")),
      (chars "checks", .record [(chars "tasks", .int size)])])

def listTasks {η : Type} (r : Registry η) : Result :=
  .described (.list (r.tasks.map (fun d => (TaskInfo.ofDescriptor d).toValue)))

def describeTask {η : Type} (r : Registry η) (name : Text) : Result :=
  match r.lookup name with
  | some d => .described (TaskInfo.ofDescriptor d).toValue
  | none => .problem (.taskNotFound name)

/-- The target that a body carries, whatever else is wrong with it. -/
def submittedTarget (v : Value) : Option Text :=
  match (v.fields?.bind (field? RunRequest.targetKey)) with
  | some (.text t) => some t
  | _ => none

def bodyPart : Text := chars "body"

def checkBody (limit : RunRequest.Limit) (v : Value) : Checked RunRequest :=
  (checkFields .attributesType (RunRequest.ofFields limit) v).inside bodyPart

def runTarget (a : App) (r : RunRequest) : App × Result :=
  match a.fault? with
  | some f => (a, .raised f)
  | none =>
    match Dispatch.execute a.policy r.target a.world with
    | (w, .outcome o) =>
      (⟨a.access, a.policy, w, a.limit, a.origins⟩, .described (RunReport.ofOutcome o).toValue)
    | (w, .escaped f) => (⟨a.access, a.policy, w, a.limit, a.origins⟩, .raised f)

def withTasks (a : App) (next : App → App × Result) : App × Result :=
  match a.opened with
  | (a, some f) => (a, .raised f)
  | (a, none) => next a

def reading (a : App) (look : Registry Handler → Result) : App × Result :=
  a.withTasks (fun a =>
    match a.fault? with
    | some f => (a, .raised f)
    | none => (a, look a.world.registry))

/-- A body that is not JSON is refused before anything else, and all others once the tasks
are set up. -/
def runBody (a : App) (b : Body) : App × Result :=
  match b with
  | .malformed position =>
    (a, .invalid [⟨[bodyPart, Text.decimal position], .malformedJson, .null⟩] none)
  | .unreadable =>
    (a, .reply 400 (.record
      [(chars "detail", .text (chars "There was an error parsing the body"))]))
  | .absent => a.withTasks (fun a => (a, .invalid [⟨[bodyPart], .missing, .null⟩] none))
  | .foreign => a.withTasks (fun a => (a, .invalid [⟨[bodyPart], .attributesType, .null⟩] none))
  | .value v =>
    a.withTasks (fun a =>
      match RunRequest.breach? a.limit v with
      | some e => (a, .raised e.toFailure)
      | none =>
        match checkBody a.limit v with
        | .error issues => (a, .invalid issues (submittedTarget v))
        | .ok r => a.runTarget r)

def runEndpoint (a : App) (e : Endpoint) (body : Body) : App × Result :=
  match e with
  | .health => (a, .reply 200 healthReport)
  | .ready => a.reading (fun r => readiness r.size)
  | .tasks => a.reading listTasks
  | .task name => a.reading (fun r => describeTask r name)
  | .run => a.runBody body

def refusal (status : Int) (text : String) : Result :=
  .reply status (.record [(chars "detail", .text (chars text))])

def originHeaders (a : App) (r : Request) : List (Text × Text) :=
  match r.header (chars "origin") with
  | none => []
  | some origin =>
    if a.origins.contains origin then [(chars "access-control-allow-origin", origin)] else []

def conclude (time : Timestamp) (path : Text) (headers : List (Text × Text))
    (ended : App × Result) : App × Except Failure Response :=
  let answered := answer time path headers ended.2
  (ended.1.emit answered.1, answered.2)

def locationFailure (e : Reference.Fault) : Failure :=
  .basic (chars "RemoteProtocolError")
    (chars "Invalid URL in location header: " ++ e.message ++ chars ".")

def redirect (r : Request) (path : Text) (headers : List (Text × Text)) :
    Except Failure Response :=
  let location := r.target.location (r.header (chars "host")) path
  match Reference.parse location with
  | .error e => .error (locationFailure e)
  | .ok _ => .ok ⟨307, (chars "location", location) :: headers, []⟩

def withoutBody (r : Response) : Response := ⟨r.status, r.headers, []⟩

def respondFully (a : App) (time : Timestamp) (r : Request) : App × Except Failure Response :=
  let headers := a.originHeaders r
  let path := r.target.loggedPath
  match Route.decide r.method r.target.path with
  | .answer e =>
    let body := Body.read (r.header (chars "content-type")) r.body
    conclude time path headers (a.runEndpoint e body)
  | .methodNotAllowed allowed =>
    conclude time path ((chars "allow", allowed.name) :: headers)
      (a, refusal 405 "Method Not Allowed")
  | .redirect p => (a, redirect r p headers)
  | .notFound => conclude time path headers (a, refusal 404 "Not Found")

def respond (a : App) (time : Timestamp) (r : Request) : App × Except Failure Response :=
  let answered := a.respondFully time r
  (answered.1, if r.method.isHead then answered.2.map withoutBody else answered.2)

end App

end Callboard.Http
