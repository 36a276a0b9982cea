import Callboard.Failure.Basic
import Callboard.Value.Display

/-!
# Building failures

A failure of a given kind is built from values. Its text is the only value, or
all of them as a tuple. System failures are built from an error number and its
meaning, and the number may narrow the kind down.
-/

set_option autoImplicit false

namespace Callboard.Failure

def textOf (kind : Text) : List Value → Text
  | [] => []
  | [v] => if kind = chars "KeyError" then v.display else v.shown
  | values => (Value.tuple values).display

def isSystemKind (kind : Text) : Bool :=
  kind == chars "OSError" || kind == chars "TimeoutError"

def kindOfErrno? (n : Int) : Option Text :=
  if n = 1 ∨ n = 13 then some (chars "PermissionError")
  else if n = 2 then some (chars "FileNotFoundError")
  else if n = 3 then some (chars "ProcessLookupError")
  else if n = 4 then some (chars "InterruptedError")
  else if n = 10 then some (chars "ChildProcessError")
  else if n = 11 ∨ n = 114 ∨ n = 115 then some (chars "BlockingIOError")
  else if n = 17 then some (chars "FileExistsError")
  else if n = 20 then some (chars "NotADirectoryError")
  else if n = 21 then some (chars "IsADirectoryError")
  else if n = 32 ∨ n = 108 then some (chars "BrokenPipeError")
  else if n = 103 then some (chars "ConnectionAbortedError")
  else if n = 104 then some (chars "ConnectionResetError")
  else if n = 110 then some (chars "TimeoutError")
  else if n = 111 then some (chars "ConnectionRefusedError")
  else none

def narrowed (kind : Text) (errno : Value) : Text :=
  if kind = chars "OSError" then
    match errno with
    | .int n => (kindOfErrno? n).getD kind
    | .bool true => chars "PermissionError"
    | _ => kind
  else kind

def filesText : List Value → Text
  | [file] => if file.isNull then [] else chars ": " ++ file.display
  | [file, _] => if file.isNull then [] else chars ": " ++ file.display
  | [file, _, second] =>
    if file.isNull then []
    else if second.isNull then chars ": " ++ file.display
    else chars ": " ++ file.display ++ chars " -> " ++ second.display
  | _ => []

def systemText (errno meaning : Value) (files : List Value) : Text :=
  chars "[Errno " ++ errno.shown ++ chars "] " ++ meaning.shown ++ filesText files

/-- A cancellation is the one kind that is not ordinary. -/
def cancellation (message : Text) : Failure :=
  ⟨chars "asyncio.exceptions.", chars "CancelledError", message, false, none⟩

def build (kind : Text) (values : List Value) : Failure :=
  if kind = chars "CancelledError" then cancellation (textOf kind values)
  else
    match values with
    | errno :: meaning :: files =>
      if isSystemKind kind && files.length ≤ 3 then
        basic (narrowed kind errno) (systemText errno meaning files)
      else basic kind (textOf kind values)
    | _ => basic kind (textOf kind values)

end Callboard.Failure
