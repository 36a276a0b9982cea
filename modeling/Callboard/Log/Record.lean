import Callboard.Failure.Basic
import Callboard.Value.Basic

/-!
# Log records

A record is a message with its level, the logger that it comes from, the fields
that were noted with it and, at times, a failure.
-/

set_option autoImplicit false

namespace Callboard.Log

/-- Levels are numbers; a record at a higher level is more important. -/
abbrev Level := Int

namespace Level

def info : Level := 20
def warning : Level := 30
def error : Level := 40

/-- A level without a word is named by its number. -/
def name (level : Level) : Text :=
  if level = 0 then chars "NOTSET"
  else if level = 10 then chars "DEBUG"
  else if level = 20 then chars "INFO"
  else if level = 30 then chars "WARNING"
  else if level = 40 then chars "ERROR"
  else if level = 50 then chars "CRITICAL"
  else chars "Level " ++ Text.signedDecimal level

def ofName? (t : Text) : Option Level :=
  if t = chars "NOTSET" then some 0
  else if t = chars "DEBUG" then some 10
  else if t = chars "INFO" then some 20
  else if t = chars "WARNING" ∨ t = chars "WARN" then some 30
  else if t = chars "ERROR" then some 40
  else if t = chars "CRITICAL" ∨ t = chars "FATAL" then some 50
  else none

theorem ofName_name : ∀ level ∈ [0, 10, 20, 30, 40, 50], ofName? (name level) = some level := by
  decide

end Level

structure Record where
  level : Level
  logger : Text
  message : Text
  fields : List (Text × Value)
  failure : Option Failure

def taskNameKey : Text := chars "task_name"
def invokeTargetKey : Text := chars "invoke_target"
def errorCodeKey : Text := chars "error_code"
def pathKey : Text := chars "path"

def fieldKeys : List Text := [taskNameKey, invokeTargetKey, errorCodeKey, pathKey]

end Callboard.Log
