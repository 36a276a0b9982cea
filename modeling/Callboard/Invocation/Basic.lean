import Callboard.Invocation.Casual
import Callboard.Literal.Printer
import Callboard.Literal.Reader

/-!
# Invocations

An invocation names a task and may give it arguments: `name` or `name(arguments)`.
The name is all that stands in front of the first parenthesis. Blanks around the
whole are ignored, those inside it are not.
-/

set_option autoImplicit false

namespace Callboard

structure Invocation where
  name : Text
  /-- The text between the parentheses; nothing if there are none. -/
  arguments : Option Text
  deriving DecidableEq

namespace Invocation

open Text

/-- The opening parenthesis has just been read, the closing one is at the end, and there is
no newline between them. -/
def enclosed? (t : Text) : Option Text :=
  match t.reverse with
  | closeParen :: inside => if inside.contains newline then none else some inside.reverse
  | _ => none

def split? (t : Text) : Option Invocation :=
  match upTo openParen t with
  | [] => none
  | c :: r =>
    match beyond? openParen t with
    | none => some ⟨c :: r, none⟩
    | some behind => (enclosed? behind).map (fun inside => ⟨c :: r, some inside⟩)

def parse? (t : Text) : Option Invocation := split? (strip t)

def formatMessage (t : Text) : Text := chars "Invalid invocation format: " ++ quoted t

/-- Without text there are no values; otherwise the text is read as the inside of a list. -/
def decode (arguments : Option Text) : Except Literal.DecodeError (List Value) :=
  match arguments with
  | none => .ok []
  | some t =>
    if (strip t).isEmpty then .ok []
    else
      match Literal.read ([openBracket] ++ normalize t ++ [closeBracket]) with
      | .error e => .error e
      | .ok (.list vs) => .ok vs
      | .ok v => .ok [v]

def decodeMessage (reason position : Text) : Text :=
  chars "Failed to parse arguments: " ++ reason ++ chars " at position " ++ position

def write (name : Text) (arguments : List Value) : Except Literal.WriteError Text :=
  match arguments with
  | [] => .ok name
  | v :: vs =>
    match Literal.writeItems (v :: vs) with
    | .error e => .error e
    | .ok ts => .ok (name ++ [openParen] ++ join (chars ", ") ts ++ [closeParen])

/-- A call that cannot be written is shown with the number of its arguments. -/
def describe (name : Text) (arguments : List Value) : Text :=
  match write name arguments with
  | .ok t => t
  | .error _ =>
    name ++ [openParen] ++ chars "<" ++ decimal arguments.length ++ chars " args>" ++ [closeParen]

end Invocation

end Callboard
