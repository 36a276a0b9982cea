import Callboard.Dispatch.Entry
import Callboard.Settings

/-!
# Messages

What clients send and get: the wish to run a target, the report on a run, and the
description of a task. A target that is sent loses the blanks around it; then it
must not be empty, and not longer than the settings allow.
-/

set_option autoImplicit false

namespace Callboard

open Validation

def checkFields {α : Type} (otherwise : Complaint) (check : List (Text × Value) → Checked α)
    (v : Value) : Checked α :=
  match v.fields? with
  | some fields => check fields
  | none => .refuse v otherwise

structure RunRequest where
  target : Text
  deriving DecidableEq

namespace RunRequest

def modelName : Text := chars "TaskRun"

def targetKey : Text := chars "invoke_target"

abbrev Limit := Except SettingsFailure Int

/-- What is wrong with the settings is wrong with the target that is checked. -/
def limitFor (target : Value) (limit : Limit) : Checked Int :=
  match limit with
  | .ok n => .ok n
  | .error (.invalid issues) => .error issues
  | .error e => .refuse target (.rule e.message)

def checkStripped (limit : Limit) (target : Value) (t : Text) : Checked Text :=
  if t.isEmpty then .refuse target (.rule (chars "invoke_target cannot be empty or whitespace"))
  else
    match limitFor target limit with
    | .error issues => .error issues
    | .ok n =>
      if n < t.length then
        .refuse target (.rule (chars "invoke_target longer than " ++ Text.signedDecimal n ++
          chars " characters"))
      else .ok t

def asTarget (v : Value) : Except Complaint Text :=
  match asText v with
  | .error c => .error c
  | .ok t =>
    match readable t with
    | .error c => .error c
    | .ok t => if t.isEmpty then .error (.textTooShort 1) else .ok t

def checkTarget (limit : Limit) (v : Value) : Checked Text :=
  match asTarget v with
  | .error c => .refuse v c
  | .ok t => checkStripped limit v (Text.strip t)

def ofFields (limit : Limit) (fields : List (Text × Value)) : Checked RunRequest :=
  (required targetKey (checkTarget limit) fields).map RunRequest.mk

def ofValue (limit : Limit) (v : Value) : Checked RunRequest :=
  checkFields (.modelType modelName) (ofFields limit) v

def asksLimit (v : Value) : Bool :=
  match v.fields?.bind (field? targetKey) with
  | none => false
  | some target =>
    match asTarget target with
    | .error _ => false
    | .ok t => !(Text.strip t).isEmpty

/-- What breaks off the check of a value: settings that nest too deep to be read, once
the limit is asked for. -/
def breach? (limit : Limit) (v : Value) : Option SettingsFailure :=
  match limit with
  | .error (.tooDeep c) => if asksLimit v then some (.tooDeep c) else none
  | _ => none

def toValue (r : RunRequest) : Value := .record [(targetKey, .text r.target)]

end RunRequest

structure TaskInfo where
  name : Text
  description : Text
  deriving DecidableEq

namespace TaskInfo

def modelName : Text := chars "TaskInfo"

def ofDescriptor {η : Type} (d : Descriptor η) : TaskInfo := ⟨d.name, d.description⟩

def ofFields (fields : List (Text × Value)) : Checked TaskInfo :=
  let name := required (chars "name") (fun v => .here v (asText v)) fields
  let description := optional (chars "description") [] (fun v => .here v (asText v)) fields
  (name.both description).map (fun p => ⟨p.1, p.2⟩)

def ofValue (v : Value) : Checked TaskInfo := checkFields (.modelType modelName) ofFields v

def toValue (i : TaskInfo) : Value :=
  .record [(chars "name", .text i.name), (chars "description", .text i.description)]

end TaskInfo

structure RunReport where
  target : Text
  success : Bool
  taskName : Option Text
  state : State
  errorCode : Option Text
  deriving DecidableEq

namespace RunReport

def modelName : Text := chars "TaskRunResponse"

def ofOutcome (o : Outcome) : RunReport :=
  ⟨o.target, o.success, o.taskName, o.state, o.errorCode⟩

def stateChoices : Complaint := .choice (State.all.map State.word)

def asState (v : Value) : Checked State :=
  match v with
  | .text t =>
    match readable t with
    | .error c => .refuse (.text t) c
    | .ok t =>
      match State.ofWord? t with
      | some s => .ok s
      | none => .refuse (.text t) stateChoices
  | v => .refuse v stateChoices

def ofFields (fields : List (Text × Value)) : Checked RunReport :=
  let target := required (chars "invoke_target") (fun v => .here v (asText v)) fields
  let success := required (chars "success") (fun v => .here v (asBool v)) fields
  let taskName := optional (chars "task_name") none textOrNull fields
  let state := required (chars "state") asState fields
  let errorCode := optional (chars "error_code") none textOrNull fields
  (target.both (success.both (taskName.both (state.both errorCode)))).map
    (fun (target, success, taskName, state, errorCode) =>
      ⟨target, success, taskName, state, errorCode⟩)

def ofValue (v : Value) : Checked RunReport := checkFields (.modelType modelName) ofFields v

def toValue (r : RunReport) : Value :=
  .record [(chars "invoke_target", .text r.target), (chars "success", .bool r.success),
    (chars "task_name", .ofText? r.taskName), (chars "state", .text r.state.word),
    (chars "error_code", .ofText? r.errorCode)]

end RunReport

end Callboard
