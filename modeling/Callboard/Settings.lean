import Callboard.Json.Reader
import Callboard.Log.Line
import Callboard.Validation.Coerce
import Callboard.Validation.Report

/-!
# Settings

What the service is told before it starts, by the environment or directly. Names
are compared without case, and what is told directly wins. Every setting has a
value of its own that stands if nothing is told.
-/

set_option autoImplicit false

namespace Callboard

structure Settings where
  strictArguments : Bool
  maxTargetLength : Int
  corsOrigins : List Text
  logLevel : Text
  logForm : Log.Form
  deriving DecidableEq

/-- Settings that cannot be used: the environment holds a text that cannot be read or
nests too deep, or some values are not what is expected. -/
inductive SettingsFailure where
  | unreadable (field : Text)
  | tooDeep (container : Json.Container)
  | invalid (issues : List Issue)

def SettingsFailure.message : SettingsFailure → Text
  | .unreadable field =>
    chars "error parsing value for field \"" ++ field ++
      chars "\" from source \"EnvSettingsSource\""
  | .tooDeep container =>
    chars "maximum recursion depth exceeded while decoding a JSON " ++ container.name ++
      chars " from a unicode string"
  | .invalid issues => report (chars "Settings") issues

def SettingsFailure.toFailure (e : SettingsFailure) : Failure :=
  match e with
  | .unreadable _ => .basic (chars "SettingsError") e.message
  | .tooDeep _ => .basic (chars "RecursionError") e.message
  | .invalid _ => .basic (chars "ValidationError") e.message

namespace Settings

def strictKey : Text := chars "strict_argument_decoding"
def lengthKey : Text := chars "max_invoke_target_length"
def originsKey : Text := chars "cors_origins"
def levelKey : Text := chars "log_level"
def formKey : Text := chars "log_format"

def keys : List Text := [strictKey, lengthKey, originsKey, levelKey, formKey]

def standard : Settings := ⟨false, 500, [chars "http://localhost:5173"], chars "INFO", .json⟩

/-- The last value under a name that is the key but for its case. -/
def find? {α : Type} (k : Text) (named : List (Text × α)) : Option α :=
  (named.reverse.find? (fun p => Text.smalls p.1 == k)).map (fun p => p.2)

def nestingLimit : Nat := 985

/-- The list stands in the environment as JSON. Null means nothing. -/
def origins (environment : List (Text × Text)) : Except SettingsFailure (Option Value) :=
  match find? originsKey environment with
  | none => .ok none
  | some t =>
    match Json.read nestingLimit t with
    | .error (.tooDeep container) => .error (.tooDeep container)
    | .error _ => .error (.unreadable originsKey)
    | .ok v => .ok (if v.isNull then none else some v)

def fromEnvironment (environment : List (Text × Text)) (origins : Option Value) (k : Text) :
    Option Value :=
  if k = originsKey then origins else (find? k environment).map Value.text

def told (environment : List (Text × Text)) (origins : Option Value)
    (given : List (Text × Value)) : List (Text × Value) :=
  keys.filterMap (fun k =>
    ((find? k given).or (fromEnvironment environment origins k)).map (fun v => (k, v)))

/-- What is told directly and belongs to no setting. -/
def strangers (given : List (Text × Value)) : List (Text × Value) :=
  given.filter (fun p => !keys.contains (Text.smalls p.1))

def formOf (v : Value) : Checked Log.Form :=
  match Validation.asText v with
  | .error c => .refuse v c
  | .ok t =>
    if Text.smalls t = chars "json" then .ok .json
    else if Text.smalls t = chars "text" then .ok .text
    else .refuse v (.rule (chars "log_format must be 'json' or 'text'"))

def refuseAll (strangers : List (Text × Value)) : Checked Unit :=
  if strangers.isEmpty then .ok ()
  else .error (strangers.map (fun p => ⟨[p.1], .extraForbidden, p.2⟩))

def check (values strangers : List (Text × Value)) : Checked Settings :=
  let strict := Validation.optional strictKey standard.strictArguments
    (fun v => .here v (Validation.asBool v)) values
  let length := Validation.optional lengthKey standard.maxTargetLength
    (fun v => .here v (Validation.asInt v)) values
  let origins := Validation.optional originsKey standard.corsOrigins Validation.asTexts values
  let level := Validation.optional levelKey standard.logLevel
    (fun v => .here v (Validation.asText v)) values
  let form := Validation.optional formKey standard.logForm formOf values
  match strict.both (length.both (origins.both (level.both (form.both (refuseAll strangers))))) with
  | .error issues => .error issues
  | .ok (strict, length, origins, level, form, _) => .ok ⟨strict, length, origins, level, form⟩

def read (environment : List (Text × Text)) (given : List (Text × Value)) :
    Except SettingsFailure Settings :=
  match origins environment with
  | .error e => .error e
  | .ok origins =>
    match check (told environment origins given) (strangers given) with
    | .error issues => .error (.invalid issues)
    | .ok s => .ok s

end Settings

end Callboard
