import Callboard.Failure.Basic
import Callboard.Value.Basic

/-!
# Signatures

What a handler expects to be called with: parameters that it requires and
parameters that it can do without. A call with another number of arguments does
not reach the handler.
-/

set_option autoImplicit false

namespace Callboard

structure Signature where
  name : Text
  required : List Text
  optional : List Text

namespace Signature

def enumerate : List Text → Text
  | [] => []
  | [a] => a
  | [a, b] => a ++ chars " and " ++ b
  | words => Text.join (chars ", ") words.dropLast ++ chars ", and " ++ words.getLastD []

def plural (n : Nat) (word : Text) : Text := if n = 1 then word else word ++ chars "s"

def missingText (f : Text) (parameters : List Text) : Text :=
  f ++ chars "() missing " ++ Text.decimal parameters.length ++ chars " required positional " ++
    plural parameters.length (chars "argument") ++ chars ": " ++
    enumerate (parameters.map (fun p => chars "'" ++ p ++ chars "'"))

def surplusText (s : Signature) (given : Nat) : Text :=
  let least := s.required.length
  let most := least + s.optional.length
  let expected :=
    if s.optional.isEmpty then Text.decimal most
    else chars "from " ++ Text.decimal least ++ chars " to " ++ Text.decimal most
  s.name ++ chars "() takes " ++ expected ++ chars " positional " ++
    (if s.optional.isEmpty then plural most (chars "argument") else chars "arguments") ++
    chars " but " ++ Text.decimal given ++ (if given = 1 then chars " was" else chars " were") ++
    chars " given"

/-- The values of all parameters, null for those that are not given. -/
def bind (s : Signature) (arguments : List Value) : Except Failure (List Value) :=
  let given := arguments.length
  let most := s.required.length + s.optional.length
  if given < s.required.length then
    .error (.basic (chars "TypeError") (missingText s.name (s.required.drop given)))
  else if most < given then .error (.basic (chars "TypeError") (surplusText s given))
  else .ok (arguments ++ List.replicate (most - given) .null)

end Signature

end Callboard
