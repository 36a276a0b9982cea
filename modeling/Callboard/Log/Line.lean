import Callboard.Json.Writer
import Callboard.Log.Record

/-!
# Log lines

How a record is written: as one JSON object, or as text. The JSON form has the
fields that are not null, in a fixed order, and the failure last. The text form
leaves the fields out and puts the failure on lines of its own.
-/

set_option autoImplicit false

namespace Callboard.Log

inductive Form where
  | json
  | text
  deriving DecidableEq

def Form.word : Form → Text
  | .json => chars "json"
  | .text => chars "text"

namespace Record

def writtenFields (r : Record) : List (Text × Value) :=
  fieldKeys.filterMap (fun k =>
    match field? k r.fields with
    | none => none
    | some v => if v.isNull then none else some (k, v))

def members (time level : Text) (r : Record) : List (Text × Value) :=
  [(chars "timestamp", .text time), (chars "level", .text level),
    (chars "logger", .text r.logger), (chars "message", .text r.message)] ++
    r.writtenFields ++
    match r.failure with
    | none => []
    | some f => [(chars "exception", .text f.trace)]

def jsonLineAs (time level : Text) (r : Record) : Except Json.WriteError Text :=
  Json.write Json.spaced (Value.record (r.members time level))

def jsonLine (time : Text) (r : Record) : Except Json.WriteError Text :=
  r.jsonLineAs time r.level.name

def withTrace (r : Record) (t : Text) : Text :=
  match r.failure with
  | none => t
  | some f => (if t.getLast? = some Text.newline then t else t ++ [Text.newline]) ++ f.trace

def textLine (time : Text) (r : Record) : Text :=
  r.withTrace (time ++ [Text.space] ++ r.level.name ++ [Text.space] ++ r.logger ++
    chars " — " ++ r.message)

def line (form : Form) (time : Text) (r : Record) : Except Json.WriteError Text :=
  match form with
  | .json => r.jsonLine time
  | .text => .ok (r.textLine time)

end Record

end Callboard.Log
