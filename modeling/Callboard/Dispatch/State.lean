import Callboard.Text.Basic

/-!
# States of a call

The states that a call passes through, from the arrival of its target to its end.
A call is successful if it ends completed, and in no other state.
-/

set_option autoImplicit false

namespace Callboard

inductive State where
  | idle
  | parsing
  | parseFailed
  | parsed
  | lookup
  | notFound
  | found
  | invoking
  | faulted
  | completed
  deriving DecidableEq

namespace State

def all : List State :=
  [.idle, .parsing, .parseFailed, .parsed, .lookup, .notFound, .found, .invoking, .faulted,
    .completed]

def word : State → Text
  | .idle => chars "idle"
  | .parsing => chars "parsing"
  | .parseFailed => chars "parse_failed"
  | .parsed => chars "parsed"
  | .lookup => chars "lookup"
  | .notFound => chars "not_found"
  | .found => chars "found"
  | .invoking => chars "invoking"
  | .faulted => chars "faulted"
  | .completed => chars "completed"

def ofWord? (t : Text) : Option State := all.find? (fun s => s.word == t)

theorem ofWord_word (s : State) : ofWord? s.word = some s := by
  cases s <;> decide

theorem word_injective {s s' : State} (h : s.word = s'.word) : s = s' := by
  apply Option.some.inj
  rw [← ofWord_word s, h, ofWord_word s']

end State

end Callboard
