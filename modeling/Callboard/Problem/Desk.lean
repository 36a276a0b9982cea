import Callboard.Problem.Basic

/-!
# The problem desk

Problems as they are issued, one after the other, with the contexts that they
share. A problem that is issued without a context opens one of its own. What is
shown of a problem follows the present state of its context.
-/

set_option autoImplicit false

namespace Callboard

structure Desk where
  contexts : List Context
  /-- The problems in order, each with the place of its context. -/
  issued : List (Problem × Nat)

namespace Desk

/-- Without a place that is taken the problem gets a context of its own, opened at the given
time. -/
def issue (d : Desk) (p : Problem) (context : Option Nat) (time : Timestamp) : Desk :=
  match context with
  | some i => ⟨d.contexts.modify i p.note, d.issued ++ [(p, i)]⟩
  | none =>
    ⟨d.contexts ++ [p.note (.fresh time)], d.issued ++ [(p, d.contexts.length)]⟩

def problems (d : Desk) : List (Problem × Context) :=
  d.issued.filterMap (fun i => d.contexts[i.2]?.map (fun c => (i.1, c)))

end Desk

end Callboard
