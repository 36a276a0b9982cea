import Callboard.Dispatch.Execute

/-!
# Strands

A strand is an execution that can be interrupted: the script that runs, the call it runs
for, and the calls that wait for it. Scripts end and executions are nested only so deep, so
a strand takes finitely many steps, whatever others do to the world in between.
-/

set_option autoImplicit false

namespace Callboard

structure Waiting where
  call : Call
  next : Bool → Script

inductive Strand where
  | unstarted (target : Text)
  | running (script : Script) (call : Call) (callers : List Waiting)
  | done (answer : Answer)

namespace Strand

def answer? : Strand → Option Answer
  | .done a => some a
  | _ => none

/-- A failure that nothing contained goes on in the call that waits. -/
def resume (a : Answer) : List Waiting → Strand
  | [] => .done a
  | w :: callers =>
    match a with
    | .outcome o => .running (w.next o.success) w.call callers
    | .escaped f => .running (.fail f) w.call callers

def finish (result : Except Failure Value) (c : Call) (callers : List Waiting) (w : World) :
    World × Strand :=
  (w.emit (c.settle result).2, resume (c.settle result).1 callers)

def start (policy : Policy) (target : Text) (callers : List Waiting) (w : World) :
    World × Strand :=
  if Dispatch.nestingLimit ≤ callers.length then
    (w, resume (.escaped Dispatch.nestedTooDeep) callers)
  else
    match Dispatch.enter policy w.registry target with
    | (.refused o, rs) => (w.emit rs, resume (.outcome o) callers)
    | (.admitted c handler, rs) => (w.emit rs, .running (handler c.arguments) c callers)

def step (policy : Policy) (s : Strand) (w : World) : World × Strand :=
  match s with
  | .unstarted target => start policy target [] w
  | .done a => (w, .done a)
  | .running script c callers =>
    match script with
    | .complete v => finish (.ok v) c callers w
    | .fail f => finish (.error f) c callers w
    | .pause next => (w, .running next c callers)
    | .note n next => (w.note n, .running next c callers)
    | .emit r next => (w.emit [r], .running next c callers)
    | .visit k next => (w.visit k, .running (next (w.visited k)) c callers)
    | .register name description handler next =>
      (w.register ⟨name, description, handler⟩, .running next c callers)
    | .execute target next => start policy target (⟨c, next⟩ :: callers) w

def givesWay : Strand → Bool
  | .running (.pause _) _ _ => true
  | _ => false

/-- What a step makes of a strand that is not done, in whatever world it is taken. -/
inductive Follows : Strand → Strand → Prop where
  | step {s : Strand} (h : s.answer? = none) (policy : Policy) (w : World) :
      Follows (s.step policy w).2 s

theorem halts_of_step {s : Strand} (h : ∀ policy w, Acc Follows (s.step policy w).2) :
    Acc Follows s := by
  constructor
  intro s' hs
  cases hs with
  | step _ policy w => exact h policy w

theorem halts_done (a : Answer) : Acc Follows (.done a) := by
  constructor
  intro s' hs
  cases hs with
  | step h _ _ => cases h

section
variable {callers : List Waiting} (hresume : ∀ a, Acc Follows (resume a callers))
include hresume

theorem halts_complete (v : Value) (c : Call) : Acc Follows (.running (.complete v) c callers) :=
  halts_of_step fun _ _ => hresume _

theorem halts_fail (f : Failure) (c : Call) : Acc Follows (.running (.fail f) c callers) :=
  halts_of_step fun _ _ => hresume _

theorem halts_start (hrunning : callers.length < Dispatch.nestingLimit →
      ∀ script c, Acc Follows (.running script c callers))
    (policy : Policy) (target : Text) (w : World) :
    Acc Follows (start policy target callers w).2 := by
  unfold start
  split
  · exact hresume _
  · next hlimit =>
    split
    · exact hresume _
    · exact hrunning (Nat.lt_of_not_le hlimit) _ _

theorem halts_script
    (hnested : ∀ x : Waiting, (x :: callers).length < Dispatch.nestingLimit →
      (∀ a, Acc Follows (resume a (x :: callers))) →
        ∀ script c, Acc Follows (.running script c (x :: callers)))
    (script : Script) (c : Call) : Acc Follows (.running script c callers) := by
  induction script with
  | complete v => exact halts_complete hresume v c
  | fail f => exact halts_fail hresume f c
  | pause next ih => exact halts_of_step fun _ _ => ih
  | note n next ih => exact halts_of_step fun _ _ => ih
  | emit r next ih => exact halts_of_step fun _ _ => ih
  | visit k next ih => exact halts_of_step fun _ w => ih (w.visited k)
  | register name description handler next _ ih => exact halts_of_step fun _ _ => ih
  | execute target next ih =>
    have hanswered : ∀ a, Acc Follows (resume a (⟨c, next⟩ :: callers)) := by
      intro a
      cases a with
      | outcome o => exact ih o.success
      | escaped f => exact halts_fail hresume f c
    exact halts_of_step fun policy w => halts_start hanswered
      (fun hlimit => hnested ⟨c, next⟩ hlimit hanswered) policy target w

end

theorem halts_running (depth : Nat) {callers : List Waiting}
    (hdepth : Dispatch.nestingLimit ≤ callers.length + depth)
    (hresume : ∀ a, Acc Follows (resume a callers)) (script : Script) (c : Call) :
    Acc Follows (.running script c callers) := by
  -- the depth is how many executions may still be nested inside of the script
  induction depth generalizing callers script c with
  | zero =>
    apply halts_script hresume
    intro x hlimit
    rw [List.length_cons] at hlimit
    omega
  | succ depth ih =>
    apply halts_script hresume
    intro x _ hanswered
    apply ih _ hanswered
    rw [List.length_cons]
    omega

theorem halts_resume (callers : List Waiting) (a : Answer) : Acc Follows (resume a callers) := by
  induction callers generalizing a with
  | nil => exact halts_done a
  | cons x callers ih =>
    have hrunning := halts_running Dispatch.nestingLimit (Nat.le_add_left _ callers.length) ih
    cases a with
    | outcome o => exact hrunning _ _
    | escaped f => exact hrunning _ _

theorem follows_wf : WellFounded Follows := by
  constructor
  intro s
  cases s with
  | unstarted target =>
    have hrunning := halts_running Dispatch.nestingLimit (Nat.le_add_left _ 0) (halts_resume [])
    exact halts_of_step fun policy w =>
      halts_start (halts_resume []) (fun _ => hrunning) policy target w
  | running script c callers =>
    exact halts_running Dispatch.nestingLimit (Nat.le_add_left _ _) (halts_resume callers) script c
  | done a => exact halts_done a

end Strand

end Callboard
