import Callboard.Dispatch.State
import Callboard.Problem.Basic
import Callboard.Registry

/-!
# Entering a call

What becomes of a target before any handler runs. A target that is no invocation
is refused, and so is one whose task is not registered. Arguments that cannot be
decoded are a matter of policy: the strict policy refuses the call, the lenient
one makes it without arguments. All of this is noted in the log.
-/

set_option autoImplicit false

namespace Callboard

inductive Policy where
  | lenient
  | strict
  deriving DecidableEq

def Policy.ofStrict (strict : Bool) : Policy := if strict then .strict else .lenient

structure Outcome where
  target : Text
  state : State
  taskName : Option Text
  arguments : List Value
  errorCode : Option Text
  argumentError : Option Text

def Outcome.success (o : Outcome) : Bool := o.state == .completed

structure Call where
  target : Text
  task : Text
  arguments : List Value
  fallback : Bool

inductive Entry (η : Type) where
  | refused (outcome : Outcome)
  | admitted (call : Call) (handler : η)

namespace Dispatch

def logger : Text := chars "jobrunner.services.task_dispatch"

def invalidTarget (target : Text) : Problem := .invocationFormat target

def undecodable (e : Literal.DecodeError) : Problem := .argumentDecode e.reason.message e.position

def invocationOf (target : Text) : Except Problem Invocation :=
  match Invocation.parse? target with
  | none => .error (invalidTarget target)
  | some i => .ok i

def valuesOf (raw : Option Text) : Except Problem (List Value) :=
  match Invocation.decode raw with
  | .error e => .error (undecodable e)
  | .ok vs => .ok vs

def argumentErrorCode : Text := chars "ARGUMENT_DECODE_ERROR"

def failureRecord (p : Problem) (taskName : Option Text) (target : Text)
    (failure : Option Failure) : Log.Record :=
  ⟨Log.Level.error, logger, chars "Task execution failed: " ++ p.message,
    [(Log.taskNameKey, Value.ofText? taskName), (Log.invokeTargetKey, .text target),
      (Log.errorCodeKey, .text p.code)], failure⟩

def fallbackRecord (e : Literal.DecodeError) (task target : Text) : Log.Record :=
  ⟨Log.Level.error, logger,
    (undecodable e).message ++ chars " — running '" ++ task ++ chars "' without arguments",
    [(Log.taskNameKey, .text task), (Log.invokeTargetKey, .text target),
      (Log.errorCodeKey, .text (undecodable e).code)], none⟩

def executingRecord (c : Call) : Log.Record :=
  ⟨Log.Level.info, logger,
    chars "Executing task: " ++ Invocation.describe c.task c.arguments,
    [(Log.taskNameKey, .text c.task), (Log.invokeTargetKey, .text c.target)], none⟩

def completedRecord (c : Call) : Log.Record :=
  ⟨Log.Level.info, logger, chars "Task completed: " ++ c.task,
    [(Log.taskNameKey, .text c.task)], none⟩

end Dispatch

open Dispatch

namespace Call

def outcome (c : Call) (state : State) (errorCode : Option Text) : Outcome :=
  ⟨c.target, state, some c.task, c.arguments, errorCode,
    if c.fallback then some argumentErrorCode else none⟩

def completed (c : Call) : Outcome := c.outcome .completed none

def faulted (c : Call) (f : Failure) : Outcome :=
  c.outcome .faulted (some (Problem.taskFailed c.task f).code)

def notFound (c : Call) : Outcome := c.outcome .notFound (some (Problem.taskNotFound c.task).code)

def entry {η : Type} (registry : Registry η) (c : Call) : Entry η × List Log.Record :=
  match registry.lookup c.task with
  | none =>
    (.refused c.notFound, [failureRecord (.taskNotFound c.task) (some c.task) c.target none])
  | some t => (.admitted c t.handler, [executingRecord c])

end Call

namespace Dispatch

def refusal (p : Problem) (taskName : Option Text) (target : Text) : Outcome :=
  ⟨target, .parseFailed, taskName, [], some p.code, none⟩

def enter {η : Type} (policy : Policy) (registry : Registry η) (target : Text) :
    Entry η × List Log.Record :=
  match Invocation.parse? target with
  | none =>
    (.refused (refusal (invalidTarget target) none target),
      [failureRecord (invalidTarget target) none target none])
  | some i =>
    match Invocation.decode i.arguments, policy with
    | .ok arguments, _ => Call.entry registry ⟨target, i.name, arguments, false⟩
    | .error e, .lenient =>
      let entered := Call.entry registry ⟨target, i.name, [], true⟩
      (entered.1, fallbackRecord e i.name target :: entered.2)
    | .error e, .strict =>
      (.refused (refusal (undecodable e) (some i.name) target),
        [failureRecord (undecodable e) (some i.name) target none])

theorem invocationOf_eq_ok_iff {target : Text} {i : Invocation} :
    invocationOf target = .ok i ↔ Invocation.parse? target = some i := by
  unfold invocationOf
  cases Invocation.parse? target with
  | none => simp
  | some other => simp

theorem invocationOf_eq_error_iff {target : Text} {p : Problem} :
    invocationOf target = .error p ↔
      Invocation.parse? target = none ∧ p = invalidTarget target := by
  unfold invocationOf
  cases Invocation.parse? target with
  | none => simp [eq_comm]
  | some i => simp

theorem valuesOf_eq_ok_iff {raw : Option Text} {args : List Value} :
    valuesOf raw = .ok args ↔ Invocation.decode raw = .ok args := by
  unfold valuesOf
  cases Invocation.decode raw with
  | error e => simp
  | ok vs => simp

theorem valuesOf_eq_error_iff {raw : Option Text} {p : Problem} :
    valuesOf raw = .error p ↔ ∃ e, Invocation.decode raw = .error e ∧ p = undecodable e := by
  unfold valuesOf
  cases Invocation.decode raw with
  | error e => simp [eq_comm]
  | ok vs => simp

section
variable {η : Type} (policy : Policy) (registry : Registry η) {target : Text}

theorem enter_unread {p : Problem} (h : invocationOf target = .error p) :
    enter policy registry target =
      (.refused (refusal p none target), [failureRecord p none target none]) := by
  obtain ⟨hparse, rfl⟩ := invocationOf_eq_error_iff.mp h
  rw [enter, hparse]

theorem enter_read {i : Invocation} {args : List Value} (hi : invocationOf target = .ok i)
    (h : valuesOf i.arguments = .ok args) :
    enter policy registry target = Call.entry registry ⟨target, i.name, args, false⟩ := by
  rw [enter, invocationOf_eq_ok_iff.mp hi]
  simp only [valuesOf_eq_ok_iff.mp h]

theorem enter_undecoded {i : Invocation} {p : Problem} (hi : invocationOf target = .ok i)
    (h : valuesOf i.arguments = .error p) :
    enter .strict registry target =
      (.refused (refusal p (some i.name) target), [failureRecord p (some i.name) target none]) := by
  obtain ⟨e, hdecode, rfl⟩ := valuesOf_eq_error_iff.mp h
  rw [enter, invocationOf_eq_ok_iff.mp hi]
  simp only [hdecode]

end

end Dispatch

end Callboard
