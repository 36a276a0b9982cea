import Callboard.Dispatch.Script
import Callboard.Signature
import Callboard.Value.Display

/-!
# Built-in tasks

The tasks that the service comes with. What they are to do lies outside of it:
each of them writes one line to the log, if it is called with the arguments that
it expects.
-/

set_option autoImplicit false

namespace Callboard.Builtin

def logger : Text := chars "jobrunner.services.handle_builtin_tasks"

def record (message : Text) : Log.Record := ⟨Log.Level.info, logger, message, [], none⟩

def announcing (s : Signature) (message : List Value → Text) : Handler := fun arguments =>
  match s.bind arguments with
  | .error f => .fail f
  | .ok values => .emit (record (message values)) (.complete .null)

def plain (name message : String) : Handler :=
  announcing ⟨chars name, [], []⟩ (fun _ => chars message)

def parameters : List Text := [chars "param1", chars "param2", chars "param3"]

def assignments (values : List Value) : Text :=
  Text.join (chars ", ") ((parameters.zip values).map (fun p => p.1 ++ chars "=" ++ p.2.display))

def withParameters : Handler :=
  announcing ⟨chars "run_params", parameters, []⟩
    (fun values => chars "Running params example task: " ++ assignments values)

def tasks : List (Descriptor Handler) :=
  [⟨chars "noParams", chars "No-params example task",
      plain "run_no_params" "Running no-params example task"⟩,
    ⟨chars "params", chars "Params example task", withParameters⟩,
    ⟨chars "clearTemp", chars "Clear temporary files",
      plain "clear_temp" "Running temp file cleanup task"⟩,
    ⟨chars "monitorSystem", chars "System status monitoring",
      plain "monitor_system" "Running system monitoring task"⟩,
    ⟨chars "backupDatabase", chars "Database backup",
      plain "backup_database" "Running database backup task"⟩]

def registry : Registry Handler × List Log.Record := Registry.build tasks

end Callboard.Builtin
