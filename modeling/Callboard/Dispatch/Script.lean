import Callboard.Dispatch.Entry

/-!
# Scripts

What a handler does, as a tree of the actions that can be seen from outside. A
script ends with a value or a failure. On its way it may give way to others, note
what it did, write to the log, ask how often it has been here, register a task, or
execute another target and go on with whether that was successful.

Handlers are taken not to change the argument values that they are given: a call has
its arguments to the end, whatever its handler does.
-/

set_option autoImplicit false

namespace Callboard

structure Note where
  event : Text
  task : Text
  values : List Value

abbrev Counter := List Nat

inductive Script where
  | complete (v : Value)
  | fail (f : Failure)
  | pause (next : Script)
  | note (n : Note) (next : Script)
  | emit (r : Log.Record) (next : Script)
  | visit (k : Counter) (next : Nat → Script)
  | register (name description : Text) (handler : List Value → Script) (next : Script)
  | execute (target : Text) (next : Bool → Script)

abbrev Handler := List Value → Script

structure World where
  registry : Registry Handler
  log : List Log.Record
  notes : List Note
  visits : List Counter

namespace World

def ofRegistry (r : Registry Handler) : World := ⟨r, [], [], []⟩

def install (w : World) (built : Registry Handler × List Log.Record) : World :=
  ⟨built.1, w.log ++ built.2, w.notes, w.visits⟩

def emit (w : World) (rs : List Log.Record) : World :=
  ⟨w.registry, w.log ++ rs, w.notes, w.visits⟩

def note (w : World) (n : Note) : World := ⟨w.registry, w.log, w.notes ++ [n], w.visits⟩

def visited (w : World) (k : Counter) : Nat := w.visits.count k

def visit (w : World) (k : Counter) : World := ⟨w.registry, w.log, w.notes, k :: w.visits⟩

def register (w : World) (t : Descriptor Handler) : World :=
  ⟨(w.registry.register t).1, w.log ++ (w.registry.register t).2, w.notes, w.visits⟩

def cleared (w : World) : World := ⟨w.registry, [], [], w.visits⟩

theorem emit_nil (w : World) : w.emit [] = w := by
  simp [emit]

theorem emit_append (w : World) (rs ss : List Log.Record) :
    w.emit (rs ++ ss) = (w.emit rs).emit ss := by
  simp [emit]

theorem emit_registry (w : World) (rs : List Log.Record) : (w.emit rs).registry = w.registry := rfl

end World

inductive Answer where
  | outcome (o : Outcome)
  | escaped (f : Failure)

/-- An ordinary failure is contained: the call has faulted. Any other failure goes on, and
nothing is noted. -/
def Call.settle (c : Call) : Except Failure Value → Answer × List Log.Record
  | .ok _ => (.outcome c.completed, [Dispatch.completedRecord c])
  | .error f =>
    if f.ordinary then
      (.outcome (c.faulted f),
        [Dispatch.failureRecord (.taskFailed c.task f) (some c.task) c.target (some f)])
    else (.escaped f, [])

end Callboard
