import Callboard.Text.Quoted

/-!
# The vocabulary of problems

Every problem has a category, which says whose affair it is, and a severity. Both
are written as words.
-/

set_option autoImplicit false

namespace Callboard

inductive Category where
  | validation
  | resourceNotFound
  | internal
  deriving DecidableEq

inductive Severity where
  | info
  | warning
  | error
  | critical
  deriving DecidableEq

namespace Category

def all : List Category := [.validation, .resourceNotFound, .internal]

def word : Category → Text
  | .validation => chars "validation"
  | .resourceNotFound => chars "resource_not_found"
  | .internal => chars "internal"

def ofWord? (t : Text) : Option Category := all.find? (fun c => c.word == t)

theorem ofWord_word (c : Category) : ofWord? c.word = some c := by
  cases c <;> decide

end Category

namespace Severity

def all : List Severity := [.info, .warning, .error, .critical]

def word : Severity → Text
  | .info => chars "info"
  | .warning => chars "warning"
  | .error => chars "error"
  | .critical => chars "critical"

def ofWord? (t : Text) : Option Severity := all.find? (fun s => s.word == t)

theorem ofWord_word (s : Severity) : ofWord? s.word = some s := by
  cases s <;> decide

end Severity

def unknownWord (t vocabulary : Text) : Text :=
  Text.quoted t ++ chars " is not a valid " ++ vocabulary

end Callboard
