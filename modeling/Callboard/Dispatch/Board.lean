import Callboard.Dispatch.Strand

/-!
# Many targets at once

Strands take turns. A strand keeps its turn until its script gives way; then it goes to the
back of the queue. Where only one strand runs, it does what executing its target does. With
every step a strand comes closer to its end or leaves the queue, and so all of them are done
at last.
-/

set_option autoImplicit false

namespace Callboard

/-- Strands of which one is a step further. -/
inductive Strand.Ahead : List Strand → List Strand → Prop where
  | head {s s' : Strand} {l : List Strand} (h : Follows s' s) : Ahead (s' :: l) (s :: l)
  | tail {s : Strand} {l l' : List Strand} (h : Ahead l' l) : Ahead (s :: l') (s :: l)

namespace Strand

theorem ahead_set {l : List Strand} {i : Nat} {s s' : Strand} (hi : l[i]? = some s)
    (h : Follows s' s) : Ahead (l.set i s') l := by
  induction l generalizing i with
  | nil => cases hi
  | cons t l ih =>
    cases i with
    | zero =>
      obtain rfl := Option.some.inj hi
      exact .head h
    | succ i => exact .tail (ih hi)

theorem acc_cons {s : Strand} (hs : Acc Follows s) {l : List Strand} (hl : Acc Ahead l) :
    Acc Ahead (s :: l) := by
  -- a step of the head leaves the tail as it is, which is accessible again from there
  induction hs generalizing l with
  | intro s _ ihs =>
    induction hl with
    | intro l hl ihl =>
      constructor
      intro l' h
      cases h with
      | head h => exact ihs _ h ⟨l, hl⟩
      | tail h => exact ihl _ h

theorem ahead_wf : WellFounded Ahead := by
  constructor
  intro l
  induction l with
  | nil =>
    constructor
    intro l' h
    cases h
  | cons s l ih => exact acc_cons (follows_wf.apply s) ih

end Strand

structure Board where
  world : World
  strands : List Strand
  queue : List Nat

namespace Board

def ofTargets (targets : List Text) (w : World) : Board :=
  ⟨w, targets.map .unstarted, List.range targets.length⟩

def requeue (before after : Strand) (i : Nat) (rest : List Nat) : List Nat :=
  if after.answer?.isSome then rest
  else if before.givesWay then rest ++ [i]
  else i :: rest

def step (policy : Policy) (b : Board) : Board :=
  match b.queue with
  | [] => b
  | i :: rest =>
    match b.strands[i]? with
    | none => ⟨b.world, b.strands, rest⟩
    | some s =>
      let stepped := s.step policy b.world
      ⟨stepped.1, b.strands.set i stepped.2, requeue s stepped.2 i rest⟩

section
variable (policy : Policy) {w : World} {strands : List Strand} {i : Nat} {rest : List Nat}

theorem step_missing (h : strands[i]? = none) :
    step policy ⟨w, strands, i :: rest⟩ = ⟨w, strands, rest⟩ := by
  simp only [step, h]

theorem step_taken {s : Strand} (h : strands[i]? = some s) :
    step policy ⟨w, strands, i :: rest⟩ = ⟨(s.step policy w).1, strands.set i (s.step policy w).2,
      requeue s (s.step policy w).2 i rest⟩ := by
  simp only [step, h]

theorem step_done {a : Answer} (h : strands[i]? = some (.done a)) :
    step policy ⟨w, strands, i :: rest⟩ = ⟨w, strands, rest⟩ := by
  obtain ⟨hi, hget⟩ := List.getElem?_eq_some_iff.mp h
  have hsame : strands.set i (.done a) = strands := by
    rw [← hget]
    exact List.set_getElem_self hi
  rw [step_taken policy h]
  simp only [Strand.step, hsame]
  rfl

end

instance : WellFoundedRelation Board :=
  invImage (fun b => (b.strands, b.queue.length))
    (Prod.lex ⟨Strand.Ahead, Strand.ahead_wf⟩ Nat.lt_wfRel)

/-- A step takes a strand further, or only takes one from the queue that is done. -/
theorem step_lt (policy : Policy) {b : Board} (h : b.queue ≠ []) :
    WellFoundedRelation.rel (b.step policy) b := by
  obtain ⟨w, strands, queue⟩ := b
  show Prod.Lex Strand.Ahead (· < ·) _ _
  cases queue with
  | nil => exact absurd rfl h
  | cons i rest =>
    cases hi : strands[i]? with
    | none =>
      rw [step_missing policy hi]
      exact .right _ (Nat.lt_succ_self rest.length)
    | some s =>
      cases hs : s.answer? with
      | none =>
        rw [step_taken policy hi]
        exact .left _ _ (Strand.ahead_set hi (.step hs policy w))
      | some a =>
        cases s with
        | done a =>
          rw [step_done policy hi]
          exact .right _ (Nat.lt_succ_self rest.length)
        | _ => cases hs

def run (policy : Policy) (b : Board) : Board :=
  if _h : b.queue = [] then b else run policy (b.step policy)
termination_by b
decreasing_by exact step_lt policy _h

/-- A cancellation that ended a strand has lost its text. -/
def answers (b : Board) : List (Option Answer) :=
  b.strands.map (fun s =>
    match s.answer? with
    | some (.escaped f) => if f.ordinary then some (.escaped f) else
        some (.escaped ⟨f.origin, f.kind, [], false, none⟩)
    | a => a)

end Board

namespace Dispatch

def gather (policy : Policy) (targets : List Text) (w : World) : World × List (Option Answer) :=
  let b := (Board.ofTargets targets w).run policy
  (b.world, b.answers)

end Dispatch

end Callboard
