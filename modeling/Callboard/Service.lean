import Callboard.Builtin
import Callboard.Dispatch.Execute
import Callboard.Log.Sink
import Callboard.Settings

/-!
# The service

From its start to its stop. The service reads its settings, sets up its log,
registers the built-in tasks and says that it has started.
-/

set_option autoImplicit false

namespace Callboard

inductive StartFailure where
  | settings (e : SettingsFailure)
  | log (f : Failure)

structure Service where
  sink : Log.Sink
  policy : Policy
  world : World

namespace Service

def logger : Text := chars "jobrunner.main"

def announcement (message : Text) : Log.Record := ⟨Log.Level.info, logger, message, [], none⟩

def started (tasks : Nat) : Log.Record :=
  announcement (chars "jobrunner API started with " ++ Text.decimal tasks ++ chars " tasks")

def stopped : Log.Record := announcement (chars "jobrunner API shutting down")

def start (environment : List (Text × Text)) : Except StartFailure Service :=
  match Settings.read environment [] with
  | .error e => .error (.settings e)
  | .ok s =>
    match Log.Sink.fresh.setup s.logLevel s.logForm.word with
    | (_, some f) => .error (.log f)
    | (sink, none) =>
      let world := (World.ofRegistry .empty).install Builtin.registry
      .ok ⟨sink, .ofStrict s.strictArguments, world.emit [started world.registry.size]⟩

def lines (s : Service) (time : Text) : List Text :=
  s.world.log.flatMap (s.sink.lines time)

def cleared (s : Service) : Service := ⟨s.sink, s.policy, s.world.cleared⟩

def executeAll (s : Service) : List Text → Service × List Answer
  | [] => (s, [])
  | t :: ts =>
    let done := Dispatch.execute s.policy t s.world
    let rest := executeAll ⟨s.sink, s.policy, done.1⟩ ts
    (rest.1, done.2 :: rest.2)

def stop (s : Service) : Service := ⟨s.sink, s.policy, s.world.emit [stopped]⟩

end Service

end Callboard
