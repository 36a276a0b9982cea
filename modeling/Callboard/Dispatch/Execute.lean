import Callboard.Dispatch.Script

/-!
# Executing targets

Runs a target to its end, when nothing else runs. Giving way has no effect then.
A script that executes another target waits for it; how deep such executions may
be nested is limited.
-/

set_option autoImplicit false

namespace Callboard

namespace Script

def run (execute : Text → World → World × Answer) :
    Script → World → World × Except Failure Value
  | .complete v, w => (w, .ok v)
  | .fail f, w => (w, .error f)
  | .pause next, w => next.run execute w
  | .note n next, w => next.run execute (w.note n)
  | .emit r next, w => next.run execute (w.emit [r])
  | .visit k next, w => (next (w.visited k)).run execute (w.visit k)
  | .register name description handler next, w =>
    next.run execute (w.register ⟨name, description, handler⟩)
  | .execute target next, w =>
    match execute target w with
    | (w, .outcome o) => (next o.success).run execute w
    | (w, .escaped f) => (w, .error f)

end Script

namespace Dispatch

def taskNames (w : World) : List Text := w.registry.names

def nestingLimit : Nat := 300

def nestedTooDeep : Failure :=
  .basic (chars "RecursionError") (chars "maximum recursion depth exceeded")

def executeWithin (policy : Policy) : Nat → Text → World → World × Answer
  | 0, _, w => (w, .escaped nestedTooDeep)
  | depth + 1, target, w =>
    match enter policy w.registry target with
    | (.refused o, rs) => (w.emit rs, .outcome o)
    | (.admitted c handler, rs) =>
      let ended := (handler c.arguments).run (executeWithin policy depth) (w.emit rs)
      let settled := c.settle ended.2
      (ended.1.emit settled.2, settled.1)

def execute (policy : Policy) (target : Text) (w : World) : World × Answer :=
  executeWithin policy nestingLimit target w

end Dispatch

end Callboard
