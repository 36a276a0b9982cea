import Callboard.Text.Basic

/-!
# Failures

A failure as the value it leaves behind: the kind it is of, the text it carries
and, if it was raised because of another failure, that one. An ordinary failure
can be contained; the others end whatever is running.
-/

set_option autoImplicit false

namespace Callboard

structure Failure where
  /-- Where the kind is defined; empty for the basic kinds. -/
  origin : Text
  kind : Text
  message : Text
  ordinary : Bool
  cause : Option Failure

namespace Failure

def basic (kind message : Text) : Failure := ⟨[], kind, message, true, none⟩

def headline (f : Failure) : Text := f.kind ++ chars ": " ++ f.message

def report (f : Failure) : Text :=
  f.origin ++ f.kind ++ (if f.message.isEmpty then [] else chars ": " ++ f.message)

def becauseOf : Text :=
  chars "\n\nThe above exception was the direct cause of the following exception:\n\n"

/-- The first cause comes first. -/
def trace : Failure → Text
  | ⟨origin, kind, message, ordinary, none⟩ => report ⟨origin, kind, message, ordinary, none⟩
  | ⟨origin, kind, message, ordinary, some cause⟩ =>
    trace cause ++ becauseOf ++ report ⟨origin, kind, message, ordinary, none⟩

end Failure

end Callboard
