import Callboard.Dispatch.Execute

/-!
# The course of an execution

Nothing that runs asks what is in the log, it only adds to it. So an execution falls into
parts: what the dispatcher notes before a handler runs, what the handler does and leaves
behind, and what the dispatcher notes then.
-/

set_option autoImplicit false

namespace Callboard

namespace World

def behind (past : List Log.Record) (w : World) : World :=
  ⟨w.registry, past ++ w.log, w.notes, w.visits⟩

def unlogged (w : World) : World := ⟨w.registry, [], w.notes, w.visits⟩

theorem behind_emit (past rs : List Log.Record) (w : World) :
    (w.behind past).emit rs = (w.emit rs).behind past := by
  simp [behind, emit]

theorem behind_register (past : List Log.Record) (t : Descriptor Handler) (w : World) :
    (w.behind past).register t = (w.register t).behind past := by
  simp [behind, register]

theorem emit_eq_behind (w : World) (rs : List Log.Record) :
    w.emit rs = w.unlogged.behind (w.log ++ rs) := by
  simp [behind, emit, unlogged]

end World

/-- An executor for which it makes no difference what is in the log. -/
def Forgetful (execute : Text → World → World × Answer) : Prop :=
  ∀ past target w, execute target (w.behind past) =
    ((execute target w).1.behind past, (execute target w).2)

theorem Script.run_behind {execute : Text → World → World × Answer} (he : Forgetful execute)
    (past : List Log.Record) (s : Script) (w : World) :
    s.run execute (w.behind past) = ((s.run execute w).1.behind past, (s.run execute w).2) := by
  induction s generalizing w with
  | complete v => rfl
  | fail f => rfl
  | pause next ih => exact ih w
  | note n next ih => exact ih (w.note n)
  | emit r next ih =>
    rw [run, World.behind_emit]
    exact ih (w.emit [r])
  | visit k next ih => exact ih (w.visited k) (w.visit k)
  | register name description handler next _ ih =>
    rw [run, World.behind_register]
    exact ih (w.register ⟨name, description, handler⟩)
  | execute target next ih =>
    -- what is executed on the way leaves the records in front as they are
    rw [run, run, he past target w]
    cases hanswer : execute target w with | mk w' a =>
    cases a with
    | outcome o => exact ih o.success w'
    | escaped f => rfl

theorem Script.run_emit {execute : Text → World → World × Answer} (he : Forgetful execute)
    (rs : List Log.Record) (s : Script) (w : World) :
    s.run execute (w.emit rs) =
      ((s.run execute w.unlogged).1.behind (w.log ++ rs), (s.run execute w.unlogged).2) := by
  rw [World.emit_eq_behind, run_behind he]

namespace Dispatch

theorem executeWithin_forgetful (policy : Policy) (depth : Nat) :
    Forgetful (executeWithin policy depth) := by
  induction depth with
  | zero => exact fun past target w => rfl
  | succ depth ih =>
    intro past target w
    have hregistry : (w.behind past).registry = w.registry := rfl
    rw [executeWithin, executeWithin, hregistry]
    split
    · rw [World.behind_emit]
    · simp only [World.behind_emit, Script.run_behind ih]

structure Course where
  before : List Log.Record
  invoked : Option (Handler × List Value)
  /-- The world as it is left to the dispatcher then. Its log holds what was added since. -/
  left : World
  failure : Option Failure
  after : List Log.Record
  answer : Answer

namespace Course

def records (k : Course) : List Log.Record := k.before ++ k.after

def world (k : Course) (w : World) : World := (k.left.emit k.after).behind (w.log ++ k.before)

end Course

def failureOf? : Except Failure Value → Option Failure
  | .ok _ => none
  | .error f => some f

/-- The course of the execution of a target. The targets that scripts name on their way are
executed by `inner`. -/
def course (policy : Policy) (inner : Text → World → World × Answer) (target : Text) (w : World) :
    Course :=
  match enter policy w.registry target with
  | (.refused o, rs) => ⟨rs, none, w.unlogged, none, [], .outcome o⟩
  | (.admitted c handler, rs) =>
    let ended := (handler c.arguments).run inner w.unlogged
    ⟨rs, some (handler, c.arguments), ended.1, failureOf? ended.2, (c.settle ended.2).2,
      (c.settle ended.2).1⟩

section
variable {policy : Policy} (inner : Text → World → World × Answer) {target : Text} (w : World)
  {rs : List Log.Record}

theorem course_refused {o : Outcome} (he : enter policy w.registry target = (.refused o, rs)) :
    course policy inner target w = ⟨rs, none, w.unlogged, none, [], .outcome o⟩ := by
  rw [course, he]

theorem course_admitted {c : Call} {handler : Handler}
    (he : enter policy w.registry target = (.admitted c handler, rs)) :
    course policy inner target w =
      ⟨rs, some (handler, c.arguments), ((handler c.arguments).run inner w.unlogged).1,
        failureOf? ((handler c.arguments).run inner w.unlogged).2,
        (c.settle ((handler c.arguments).run inner w.unlogged).2).2,
        (c.settle ((handler c.arguments).run inner w.unlogged).2).1⟩ := by
  rw [course, he]

end

theorem executeWithin_course (policy : Policy) (depth : Nat) (target : Text) (w : World) :
    executeWithin policy (depth + 1) target w =
      ((course policy (executeWithin policy depth) target w).world w,
        (course policy (executeWithin policy depth) target w).answer) := by
  rw [executeWithin]
  split
  · next o rs he => rw [course_refused _ w he, Course.world, World.emit_nil, World.emit_eq_behind]
  · next c handler rs he =>
    rw [course_admitted _ w he, Course.world]
    simp only [Script.run_emit (executeWithin_forgetful policy depth), World.behind_emit]

theorem executeWithin_unlogged (policy : Policy) (depth : Nat) (target : Text) (w : World) :
    (executeWithin policy (depth + 1) target w).1.unlogged =
      (course policy (executeWithin policy depth) target w).left.unlogged := by
  rw [executeWithin_course]
  rfl

end Dispatch

def Outcome.about (target : Text) (o : Outcome) : Outcome :=
  ⟨target, o.state, o.taskName, o.arguments, o.errorCode, o.argumentError⟩

def Answer.about (target : Text) : Answer → Answer
  | .outcome o => .outcome (o.about target)
  | .escaped f => .escaped f

def Call.about (target : Text) (c : Call) : Call := ⟨target, c.task, c.arguments, c.fallback⟩

def Entry.about {η : Type} (target : Text) : Entry η → Entry η
  | .refused o => .refused (o.about target)
  | .admitted c handler => .admitted (c.about target) handler

theorem Call.entry_about {η : Type} (registry : Registry η) (target : Text) (c : Call) :
    ((c.about target).entry registry).1 = (c.entry registry).1.about target := by
  have htask : (c.about target).task = c.task := rfl
  rw [Call.entry, Call.entry, htask]
  split
  · rfl
  · rfl

theorem Call.settle_about (target : Text) (c : Call) (result : Except Failure Value) :
    ((c.about target).settle result).1 = (c.settle result).1.about target := by
  cases result with
  | ok v => rfl
  | error f =>
    rw [Call.settle, Call.settle]
    split
    · rfl
    · rfl

namespace Dispatch

section
variable {target other : Text} (h : Invocation.parse? target = Invocation.parse? other)
include h

theorem enter_about {η : Type} (policy : Policy) (registry : Registry η) :
    (enter policy registry target).1 = (enter policy registry other).1.about target := by
  unfold enter
  rw [h]
  cases Invocation.parse? other with
  | none => rfl
  | some i =>
    cases hd : Invocation.decode i.arguments with
    | ok args =>
      simp only [hd]
      exact Call.entry_about registry target ⟨other, i.name, args, false⟩
    | error e =>
      cases policy with
      | lenient =>
        simp only [hd]
        exact Call.entry_about registry target ⟨other, i.name, [], true⟩
      | strict =>
        simp only [hd]
        rfl

/-- Two targets that are the same invocation take courses that differ in the target they are
about. -/
theorem course_about (policy : Policy) (inner : Text → World → World × Answer) (w : World) :
    (course policy inner target w).invoked = (course policy inner other w).invoked ∧
      (course policy inner target w).left = (course policy inner other w).left ∧
      (course policy inner target w).answer = (course policy inner other w).answer.about target := by
  have habout := enter_about h policy w.registry
  cases he : enter policy w.registry other with | mk entry rs =>
  cases ht : enter policy w.registry target with | mk entry' rs' =>
  rw [he, ht] at habout
  subst habout
  cases entry with
  | refused o =>
    rw [course_refused inner w he, course_refused inner w ht]
    exact ⟨rfl, rfl, rfl⟩
  | admitted c handler =>
    rw [course_admitted inner w he, course_admitted inner w ht]
    exact ⟨rfl, rfl, Call.settle_about target c _⟩

/-- Executing them has the same outcome, but for the target it is about, and leaves the same
behind, but for the log. -/
theorem executeWithin_about (policy : Policy) (depth : Nat) (w : World) :
    (executeWithin policy (depth + 1) target w).1.unlogged =
        (executeWithin policy (depth + 1) other w).1.unlogged ∧
      (executeWithin policy (depth + 1) target w).2 =
        (executeWithin policy (depth + 1) other w).2.about target := by
  obtain ⟨-, hleft, hanswer⟩ := course_about h policy (executeWithin policy depth) w
  refine ⟨by rw [executeWithin_unlogged, executeWithin_unlogged, hleft], ?_⟩
  rw [executeWithin_course, executeWithin_course]
  exact hanswer

end

end Dispatch

end Callboard
