import Callboard.Failure.Basic
import Callboard.Invocation.Basic
import Callboard.Problem.Context
import Callboard.Problem.Vocabulary

/-!
# Problems

What can go wrong on the way from a request to a finished task. A problem has a
message, a code, a category, a severity and a status for the outside. Some of them
note the task or the target in the context they come up in. The envelope is what
a client gets to see; it never shows the failure of a task.
-/

set_option autoImplicit false

namespace Callboard

inductive Problem where
  | general (message code : Text) (category : Category) (severity : Severity) (status : Int)
  | invocationFormat (target : Text)
  | argumentDecode (reason : Text) (position : Int)
  | taskNotFound (name : Text)
  | taskFailed (name : Text) (failure : Failure)
  | invalidRequest (details : Value)
  | internalFailure

namespace Problem

def message : Problem → Text
  | .general message _ _ _ _ => message
  | .invocationFormat target => Invocation.formatMessage target
  | .argumentDecode reason position =>
    Invocation.decodeMessage reason (Text.signedDecimal position)
  | .taskNotFound name => chars "Task '" ++ name ++ chars "' does not exist"
  | .taskFailed name failure =>
    chars "Task '" ++ name ++ chars "' failed: " ++ failure.headline
  | .invalidRequest _ => chars "Invalid request data"
  | .internalFailure => chars "An unexpected error occurred"

def code : Problem → Text
  | .general _ code _ _ _ => code
  | .invocationFormat _ => chars "INVALID_INVOCATION"
  | .argumentDecode _ _ => chars "ARGUMENT_DECODE_ERROR"
  | .taskNotFound _ => chars "TASK_NOT_FOUND"
  | .taskFailed _ _ => chars "TASK_FAILED"
  | .invalidRequest _ => chars "VALIDATION_ERROR"
  | .internalFailure => chars "INTERNAL_ERROR"

def category : Problem → Category
  | .general _ _ category _ _ => category
  | .invocationFormat _ => .validation
  | .argumentDecode _ _ => .validation
  | .taskNotFound _ => .resourceNotFound
  | .taskFailed _ _ => .internal
  | .invalidRequest _ => .validation
  | .internalFailure => .internal

def severity : Problem → Severity
  | .general _ _ _ severity _ => severity
  | .internalFailure => .critical
  | _ => .error

def status : Problem → Int
  | .general _ _ _ _ status => status
  | .invocationFormat _ => 400
  | .argumentDecode _ _ => 400
  | .taskNotFound _ => 404
  | .taskFailed _ _ => 500
  | .invalidRequest _ => 400
  | .internalFailure => 500

def note (p : Problem) (c : Context) : Context :=
  match p with
  | .invocationFormat target => ⟨c.timestamp, c.taskName, some target, c.debugInfo⟩
  | .taskNotFound name => ⟨c.timestamp, some name, c.invokeTarget, c.debugInfo⟩
  | .taskFailed name _ => ⟨c.timestamp, some name, c.invokeTarget, c.debugInfo⟩
  | _ => c

def details : Problem → List (Text × Value)
  | .invalidRequest details => [(chars "details", details)]
  | _ => []

def envelope (p : Problem) (c : Context) : Value :=
  Value.record [(chars "error", Value.record
    ([(chars "code", .text p.code), (chars "message", .text p.message),
      (chars "category", .text p.category.word), (chars "severity", .text p.severity.word),
      (chars "timestamp", .text c.timestamp.write),
      (chars "context", Value.record
        [(chars "task_name", Value.ofText? c.taskName),
          (chars "invoke_target", Value.ofText? c.invokeTarget)])] ++ p.details))]

def kind : Problem → Text
  | .general _ _ _ _ _ => chars "JobRunnerError"
  | .invocationFormat _ => chars "InvocationFormatError"
  | .argumentDecode _ _ => chars "ArgumentDecodeError"
  | .taskNotFound _ => chars "TaskNotFoundError"
  | .taskFailed _ _ => chars "TaskExecutionError"
  | .invalidRequest _ => chars "InvalidRequestError"
  | .internalFailure => chars "InternalError"

def toFailure (p : Problem) : Failure :=
  ⟨chars "jobrunner.core.errors.", p.kind, p.message, true, none⟩

end Problem

end Callboard
