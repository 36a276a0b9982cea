import Callboard.Proofs.Dispatch.Alone
import Callboard.Proofs.Dispatch.Gathering
import Callboard.Proofs.Dispatch.Steady

/-!
# Independence of calls

Calls on one dispatcher do not disturb each other. In every schedule, with registrations
anywhere in between, a call that has ended is the call that the same target comes to when
it is executed alone, in a world with the registry of its lookup: the same outcome, the same
call of a handler, the same records. Targets that are gathered are answered in their order.
-/

set_option autoImplicit false

namespace Callboard

open Dispatch

/-- Made alone in the world, the call ends as the ledger says. -/
def SameAlone (policy : Policy) (w : World) (f : Finished) : Prop :=
  ∃ n l, (Scene.start w).play policy (Scene.solo f.target n) =
      ⟨(execute policy f.target w).1, [l]⟩ ∧
    l.strand = .done f.answer ∧ l.ledger.finished.head? = some f ∧
      (execute policy f.target w).2 = f.answer

section
variable {policy : Policy} {result : Handler → List Value → Except Failure Value}

theorem settled_start {es : List Event} {w : World}
    (hdecide : ArgumentsDecide policy result es (.start w)) :
    ∀ l ∈ ((Scene.start w).play policy es).lanes, ∀ f ∈ l.ledger.finished,
      f = verdict policy result f.registry f.target :=
  settled_play (fun _ hl => absurd hl List.not_mem_nil) hdecide

theorem same_alone {w : World} {f : Finished}
    (hf : f = verdict policy result f.registry f.target) (hw : w.registry = f.registry)
    (halone : ∀ n, ArgumentsDecide policy result (Scene.solo f.target n) (.start w)) :
    SameAlone policy w f := by
  obtain ⟨n, l, f', finished, hplay, hdone, hfinished, htarget, hregistry, hanswer⟩ :=
    Scene.solo_ends policy f.target w
  -- both calls are what the one registry makes of the one target
  have hf' := settled_start (halone n) l (by simp [hplay]) f' (by simp [hfinished])
  have hsame : f' = f :=
    calc
      f' = verdict policy result f'.registry f'.target := hf'
      _ = verdict policy result f.registry f.target := by rw [hregistry, htarget, hw]
      _ = f := hf.symm
  subst hsame
  exact ⟨n, l, hplay, hanswer ▸ hdone, by rw [hfinished]; rfl, hanswer.symm⟩

end

theorem move_registry (policy : Policy) (s : Scene) (i : Nat) :
    (s.move policy (.step i)).world.registry = s.world.registry ∨
      ∃ l name description handler next c callers, s.lanes[i]? = some l ∧
        l.strand = .running (.register name description handler next) c callers ∧
        (s.move policy (.step i)).world.registry =
          (s.world.registry.register ⟨name, description, handler⟩).1 := by
  rw [Scene.move]
  split
  · exact .inl rfl
  · next l hl =>
    rcases l.step_registry s.world with h | ⟨name, description, handler, next, c, callers, hl', h⟩
    · exact .inl h
    · exact .inr ⟨l, name, description, handler, next, c, callers, hl, hl', h⟩

/-- Calls on one dispatcher are independent, in every schedule in which arguments decide how
handlers end. -/
theorem calls_independent {policy : Policy} {result : Handler → List Value → Except Failure Value}
    {w : World} {es : List Event} (hdecide : ArgumentsDecide policy result es (.start w)) :
    (∀ l ∈ ((Scene.start w).play policy es).lanes, ∀ f ∈ l.ledger.finished, ∀ v : World,
      v.registry = f.registry →
        (∀ n, ArgumentsDecide policy result (Scene.solo f.target n) (.start v)) →
          SameAlone policy v f) ∧
    (∀ s i, (Scene.move policy s (.step i)).world.registry = s.world.registry ∨
      ∃ l name description handler next c callers, s.lanes[i]? = some l ∧
        l.strand = .running (.register name description handler next) c callers ∧
        (Scene.move policy s (.step i)).world.registry =
          (s.world.registry.register ⟨name, description, handler⟩).1) ∧
    ((Scene.start w).play policy es).InOrder (arrivals es) ∧
    ∀ targets, ∃ is s, Gathers policy targets w is s := by
  refine ⟨?_, move_registry policy, Scene.play_inOrder policy es w, fun targets => gathers _ _ w⟩
  intro l hl f hf v hv halone
  exact same_alone (settled_start hdecide l hl f hf) hv halone

def errand : Descriptor Handler := ⟨chars "errand", [], fun _ => .pause (.complete .null)⟩

def relay : Descriptor Handler :=
  ⟨chars "relay", [], fun _ => .execute (chars "errand") fun _ => .complete .null⟩

def spoiledErrand : Descriptor Handler :=
  ⟨chars "errand", [], fun _ => .fail (.basic (chars "RuntimeError") (chars "spoiled"))⟩

def relayWorld : World := .ofRegistry ⟨[errand, relay]⟩

theorem relayWorld_ordinary : relayWorld.Ordinary := by
  intro t ht args
  simp only [relayWorld, World.ofRegistry, List.mem_cons, List.not_mem_nil, or_false] at ht
  rcases ht with rfl | rfl
  · trivial
  · exact fun _ => trivial

/-- The targets that are refused end first, though they come last. -/
def relayTargets : List Text := [chars "relay", chars "errand", chars "(", chars "missing"]

def relayEvents : List Event := [
  .arrive (chars "relay"), .arrive (chars "errand"), .step 0, .step 0, .register spoiledErrand,
  .step 1, .step 0, .step 1, .step 0, .step 0]

def relayRank (name : Text) : Nat := if name = chars "relay" then 1 else 0

theorem relayRank_lt (name : Text) : relayRank name < nestingLimit := by
  unfold relayRank
  split <;> decide

theorem relay_steady :
    relayWorld.registry.Steady relayRank ∧ ∀ e ∈ relayEvents, e.Steady relayRank := by
  have hvalue : Contained (.ok .null) := fun f hf => by cases hf
  constructor
  · intro t ht args
    simp only [relayWorld, World.ofRegistry, List.mem_cons, List.not_mem_nil, or_false] at ht
    rcases ht with rfl | rfl
    · exact ⟨rfl, hvalue⟩
    · exact ⟨⟨by decide, fun _ => rfl⟩, hvalue⟩
  · intro e he
    simp only [relayEvents, List.mem_cons, List.not_mem_nil, or_false] at he
    rcases he with rfl | rfl | rfl | rfl | rfl | rfl | rfl | rfl | rfl | rfl
    case inr.inr.inr.inr.inl =>
      refine fun args => ⟨rfl, fun f hf => ?_⟩
      obtain rfl := Except.error.inj hf
      rfl
    all_goals trivial

theorem relay_solo {f : Finished} {v : World} (hf : f.registry.Steady relayRank)
    (hv : v.registry = f.registry) (n : Nat) :
    ArgumentsDecide .lenient (fun handler args => (handler args).result) (Scene.solo f.target n)
      (.start v) := by
  refine steady_decide relayRank_lt .lenient (fun e he => ?_) (hv ▸ hf) (by simp [Scene.start])
  rcases List.mem_cons.mp he with rfl | he
  · trivial
  · obtain rfl := List.eq_of_mem_replicate he
    trivial

theorem relay_ends : ((Scene.start relayWorld).play .lenient relayEvents).lanes.map
    (fun l => l.ledger.finished.map (fun f => (f.target, f.registry.size))) =
      [[(chars "relay", 2), (chars "errand", 2)], [(chars "errand", 2)]] := by
  decide +kernel

theorem calls_independent_relay :
    ArgumentsDecide .lenient (fun handler args => (handler args).result) relayEvents
        (.start relayWorld) ∧
      (∃ l ∈ ((Scene.start relayWorld).play .lenient relayEvents).lanes,
        ∃ f ∈ l.ledger.finished, f.target = chars "errand" ∧
          SameAlone .lenient (.ofRegistry f.registry) f) ∧
      ((Scene.start relayWorld).play .lenient relayEvents).InOrder (arrivals relayEvents) ∧
      ∃ os : List Outcome,
        (gather .lenient relayTargets relayWorld).2 = os.map (fun o => some (.outcome o)) ∧
          os.map Outcome.target = relayTargets := by
  obtain ⟨hworld, hevents⟩ := relay_steady
  have hlanes : ∀ l ∈ (Scene.start relayWorld).lanes, l.Steady relayRank :=
    fun l hl => absurd hl List.not_mem_nil
  have hdecide := steady_decide relayRank_lt .lenient hevents (s := .start relayWorld) hworld hlanes
  have hsteady := steady_play relayRank_lt .lenient hevents (s := .start relayWorld) hworld hlanes
  obtain ⟨l, rest, hl, hfinished, -⟩ := List.map_eq_cons_iff.mp relay_ends
  have hmem : l ∈ ((Scene.start relayWorld).play .lenient relayEvents).lanes := by
    rw [hl]
    exact List.mem_cons_self
  obtain ⟨root, inner, hroot, -, hinner⟩ := List.map_eq_cons_iff.mp hfinished
  obtain ⟨f, _, hf, htarget, -⟩ := List.map_eq_cons_iff.mp hinner
  have hfmem : f ∈ l.ledger.finished := by simp [hroot, hf]
  obtain ⟨hcalls, -, horder, hgather⟩ := calls_independent hdecide
  obtain ⟨_, _, hgathers⟩ := hgather relayTargets
  have halone := relay_solo ((hsteady l hmem).finished f hfmem)
    (v := World.ofRegistry f.registry) rfl
  have hsame := hcalls l hmem f hfmem _ rfl halone
  exact ⟨hdecide, ⟨l, hmem, f, hfmem, congrArg Prod.fst htarget, hsame⟩, horder,
    hgathers.outcomes relayWorld_ordinary⟩

end Callboard
