import Callboard.Value.Basic

/-!
# Issues

What is wrong with data that comes from outside. An issue is a complaint about
the value at a location; where a value is missing, it is about the fields that are
there. A check gives the checked value or all the issues there are; two checks side
by side give the issues of both.
-/

set_option autoImplicit false

namespace Callboard

inductive Complaint where
  | missing
  | textType
  | textUnicode
  | textTooShort (least : Nat)
  | boolType
  | boolParsing
  | intType
  | intParsing
  | intParsingSize
  | intFromFloat
  | finiteNumber
  | listType
  | modelType (model : Text)
  | attributesType
  | choice (words : List Text)
  | extraForbidden
  | malformedJson
  | rule (message : Text)

namespace Complaint

def code : Complaint → Text
  | .missing => chars "missing"
  | .textType => chars "string_type"
  | .textUnicode => chars "string_unicode"
  | .textTooShort _ => chars "string_too_short"
  | .boolType => chars "bool_type"
  | .boolParsing => chars "bool_parsing"
  | .intType => chars "int_type"
  | .intParsing => chars "int_parsing"
  | .intParsingSize => chars "int_parsing_size"
  | .intFromFloat => chars "int_from_float"
  | .finiteNumber => chars "finite_number"
  | .listType => chars "list_type"
  | .modelType _ => chars "model_type"
  | .attributesType => chars "model_attributes_type"
  | .choice _ => chars "enum"
  | .extraForbidden => chars "extra_forbidden"
  | .malformedJson => chars "json_invalid"
  | .rule _ => chars "value_error"

def choices (words : List Text) : Text :=
  let quoted := words.map (fun w => chars "'" ++ w ++ chars "'")
  match quoted with
  | [] => []
  | [w] => w
  | ws => Text.join (chars ", ") ws.dropLast ++ chars " or " ++ ws.getLastD []

def message : Complaint → Text
  | .missing => chars "Field required"
  | .textType => chars "Input should be a valid string"
  | .textUnicode =>
    chars "Input should be a valid string, unable to parse raw data as a unicode string"
  | .textTooShort least =>
    chars "String should have at least " ++ Text.decimal least ++
      (if least = 1 then chars " character" else chars " characters")
  | .boolType => chars "Input should be a valid boolean"
  | .boolParsing => chars "Input should be a valid boolean, unable to interpret input"
  | .intType => chars "Input should be a valid integer"
  | .intParsing =>
    chars "Input should be a valid integer, unable to parse string as an integer"
  | .intParsingSize => chars "Unable to parse input string as an integer, exceeded maximum size"
  | .intFromFloat => chars "Input should be a valid integer, got a number with a fractional part"
  | .finiteNumber => chars "Input should be a finite number"
  | .listType => chars "Input should be a valid list"
  | .modelType model => chars "Input should be a valid dictionary or instance of " ++ model
  | .attributesType =>
    chars "Input should be a valid dictionary or object to extract fields from"
  | .choice words => chars "Input should be " ++ choices words
  | .extraForbidden => chars "Extra inputs are not permitted"
  | .malformedJson => chars "JSON decode error"
  | .rule message => chars "Value error, " ++ message

end Complaint

structure Issue where
  location : List Text
  complaint : Complaint
  input : Value

abbrev Checked (α : Type) := Except (List Issue) α

namespace Checked

variable {α β : Type}

def refuse (v : Value) (c : Complaint) : Checked α := .error [⟨[], c, v⟩]

/-- A check of a value that complains about nothing but the value itself. -/
def here (v : Value) : Except Complaint α → Checked α
  | .ok a => .ok a
  | .error c => refuse v c

def inside (part : Text) : Checked α → Checked α
  | .ok a => .ok a
  | .error issues => .error (issues.map (fun i => ⟨part :: i.location, i.complaint, i.input⟩))

def both : Checked α → Checked β → Checked (α × β)
  | .ok a, .ok b => .ok (a, b)
  | .ok _, .error issues => .error issues
  | .error issues, .ok _ => .error issues
  | .error issues, .error more => .error (issues ++ more)

def items (check : β → Checked α) (values : List β) : Checked (List α) :=
  (values.zipIdx.map (fun v => inside (Text.decimal v.2) (check v.1))).foldr
    (fun item rest =>
      match both item rest with
      | .ok p => .ok (p.1 :: p.2)
      | .error issues => .error issues) (.ok [])

end Checked

end Callboard
