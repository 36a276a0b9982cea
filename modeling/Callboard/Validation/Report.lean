import Callboard.Text.Utf8
import Callboard.Validation.Issue
import Callboard.Value.Display

/-!
# Reports

Issues as a text for people. Each issue names its location, its message, its code,
the value with its type, and a page about issues of its code. A long value loses
its middle.
-/

set_option autoImplicit false

namespace Callboard

def byteLength (t : Text) : Nat := (Text.utf8 t).length

/-- The longest beginning of a text that has no more bytes than there is room for. -/
def within : Nat → Text → Text
  | _, [] => []
  | room, c :: t =>
    let n := (Text.utf8CodePoint c).length
    if n ≤ room then c :: within (room - n) t else []

def displayLimit : Nat := 50

/-- A text beyond the limit is its beginning and its end, of half the limit each. -/
def shortened (t : Text) : Text :=
  if byteLength t ≤ displayLimit then t
  else
    within (displayLimit / 2) t ++ chars "..." ++
      (within (displayLimit / 2 - 1) t.reverse).reverse

def manual : Text := chars "errors.pydantic.dev/2.14/v/"

def Issue.report (i : Issue) : Text :=
  Text.join [Text.dot] i.location ++ chars "\n  " ++ i.complaint.message ++
    chars " [type=" ++ i.complaint.code ++
    chars ", input_value=" ++ shortened i.input.display ++
    chars ", input_type=" ++ i.input.typeName ++
    chars "]\n    For further information visit https://" ++ manual ++ i.complaint.code

def report (title : Text) (issues : List Issue) : Text :=
  Text.decimal issues.length ++
    (if issues.length = 1 then chars " validation error" else chars " validation errors") ++
    chars " for " ++ title ++ issues.flatMap (fun i => Text.newline :: i.report)

end Callboard
