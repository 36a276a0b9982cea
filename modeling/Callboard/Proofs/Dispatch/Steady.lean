import Callboard.Proofs.Dispatch.Ledger

/-!
# Steady handlers

A condition on handlers one by one under which their arguments decide how they end: a
handler ends the same way whatever it is told, with a value or an ordinary failure, and
executes only targets of tasks that rank below its own. Ranks stay below the limit on
nested executions, so no execution is cut short.
-/

set_option autoImplicit false

namespace Callboard

def Contained (result : Except Failure Value) : Prop := ∀ f, result = .error f → f.ordinary = true

namespace Script

/-- How a script ends if all that it executes is successful and all that it visits is new. -/
def result : Script → Except Failure Value
  | .complete v => .ok v
  | .fail f => .error f
  | .pause next => next.result
  | .note _ next => next.result
  | .emit _ next => next.result
  | .visit _ next => (next 0).result
  | .register _ _ _ next => next.result
  | .execute _ next => (next true).result

end Script

section
variable (rank : Text → Nat)

def targetRank (target : Text) : Nat :=
  match Invocation.parse? target with
  | none => 0
  | some i => rank i.name

/-- Whatever the script is told it ends with the given result, executes only targets below
the given rank, and registers only handlers that are steady as well. -/
def Script.Steady : Script → Nat → Except Failure Value → Prop
  | .complete v, _, r => r = .ok v
  | .fail f, _, r => r = .error f
  | .pause next, n, r => next.Steady n r
  | .note _ next, n, r => next.Steady n r
  | .emit _ next, n, r => next.Steady n r
  | .visit _ next, n, r => ∀ k, (next k).Steady n r
  | .register name _ handler next, n, r =>
    (∀ args, (handler args).Steady (rank name) (handler args).result ∧
      Contained (handler args).result) ∧ next.Steady n r
  | .execute target next, n, r => targetRank rank target < n ∧ ∀ success, (next success).Steady n r

def Descriptor.Steady (t : Descriptor Handler) : Prop :=
  ∀ args, (t.handler args).Steady rank (rank t.name) (t.handler args).result ∧
    Contained (t.handler args).result

def Registry.Steady (r : Registry Handler) : Prop := ∀ t ∈ r.tasks, t.Steady rank

def Event.Steady : Event → Prop
  | .register t => t.Steady rank
  | _ => True

/-- The calls that wait, and those of the ledger, belong together: each goes on steadily, with
the result of its handler, and has room for the executions below its rank. -/
def Held : List Waiting → List Begun → Prop
  | [], [] => True
  | x :: callers, b :: pending =>
    (∃ handler, b.invoked = some (handler, x.call.arguments) ∧
      Contained (handler x.call.arguments).result ∧
      callers.length + rank x.call.task < Dispatch.nestingLimit ∧
      ∀ success, (x.next success).Steady rank (rank x.call.task)
        (handler x.call.arguments).result) ∧ Held callers pending
  | _, _ => False

def Strand.stack : Strand → List Waiting
  | .running script c callers => ⟨c, fun _ => script⟩ :: callers
  | _ => []

structure Lane.Steady (l : Lane) : Prop where
  held : Held rank l.strand.stack l.ledger.pending
  pending : ∀ b ∈ l.ledger.pending, b.registry.Steady rank
  finished : ∀ f ∈ l.ledger.finished, f.registry.Steady rank

end

variable {rank : Text → Nat}

theorem Registry.Steady.register {r : Registry Handler} (hr : r.Steady rank)
    {t : Descriptor Handler} (ht : t.Steady rank) : (r.register t).1.Steady rank := by
  intro u hu
  rcases World.mem_place hu with rfl | hu
  · exact ht
  · exact hr u hu

theorem targetRank_of_admitted {policy : Policy} {registry : Registry Handler} {target : Text}
    {c : Call} {handler : Handler} {rs : List Log.Record}
    (h : Dispatch.enter policy registry target = (.admitted c handler, rs)) :
    targetRank rank target = rank c.task := by
  obtain ⟨-, i, hi, htask⟩ := Dispatch.enter_admitted_target h
  rw [targetRank, hi, htask]

theorem targetRank_lt (hrank : ∀ name, rank name < Dispatch.nestingLimit) (target : Text) :
    targetRank rank target < Dispatch.nestingLimit := by
  unfold targetRank
  split
  · decide
  · exact hrank _

theorem Held.innermost {x : Waiting} {callers : List Waiting} {pending : List Begun}
    (h : Held rank (x :: callers) pending) : ∃ b rest handler, pending = b :: rest ∧
      b.invoked = some (handler, x.call.arguments) ∧
      Contained (handler x.call.arguments).result ∧
      callers.length + rank x.call.task < Dispatch.nestingLimit ∧
      (∀ success, (x.next success).Steady rank (rank x.call.task)
        (handler x.call.arguments).result) ∧ Held rank callers rest := by
  cases pending with
  | nil => exact h.elim
  | cons b pending =>
    obtain ⟨⟨handler, hinvoked, hcontained, hroom, hnext⟩, hrest⟩ := h
    exact ⟨b, pending, handler, rfl, hinvoked, hcontained, hroom, hnext, hrest⟩

theorem Script.Goes.steady {w w' : World} {script script' : Script} (h : script.Goes w w' script')
    {n : Nat} {r : Except Failure Value} (hs : script.Steady rank n r)
    (hw : w.registry.Steady rank) : script'.Steady rank n r ∧ w'.registry.Steady rank := by
  cases h with
  | visit => exact ⟨hs _, hw⟩
  | register => exact ⟨hs.2, hw.register hs.1⟩
  | _ => exact ⟨hs, hw⟩

theorem Held.resume {o : Outcome} {callers : List Waiting} {pending : List Begun}
    (h : Held rank callers pending) :
    Held rank (Strand.resume (.outcome o) callers).stack pending := by
  cases callers with
  | nil => exact h
  | cons x callers =>
    obtain ⟨b, rest, handler, rfl, hinvoked, hcontained, hroom, hnext, hrest⟩ := h.innermost
    exact ⟨⟨handler, hinvoked, hcontained, hroom, fun _ => hnext _⟩, hrest⟩

theorem Held.enters (hrank : ∀ name, rank name < Dispatch.nestingLimit) {s : Strand} {target : Text}
    {callers : List Waiting} {pending : List Begun} (hs : s.Enters target callers)
    (h : Held rank s.stack pending) :
    Held rank callers pending ∧
      callers.length + targetRank rank target < Dispatch.nestingLimit := by
  cases hs with
  | first _ =>
    refine ⟨h, ?_⟩
    rw [List.length_nil, Nat.zero_add]
    exact targetRank_lt hrank target
  | nested _ next c hlimit =>
    obtain ⟨b, rest, handler, rfl, hinvoked, hcontained, hroom, hscript, hrest⟩ := h.innermost
    obtain ⟨hbelow, hnext⟩ := hscript true
    refine ⟨⟨⟨handler, hinvoked, hcontained, hroom, hnext⟩, hrest⟩, ?_⟩
    dsimp only at hbelow hroom
    rw [List.length_cons]
    omega

theorem Lane.Steady.turn (hrank : ∀ name, rank name < Dispatch.nestingLimit) {policy : Policy}
    {w w' : World} {l l' : Lane} (h : l.Steady rank) (hw : w.registry.Steady rank)
    (hturn : Turn policy w l w' l') : l'.Steady rank ∧ w'.registry.Steady rank := by
  obtain ⟨hheld, hpending, hfinished⟩ := h
  cases hturn with
  | rests => exact ⟨⟨hheld, hpending, hfinished⟩, hw⟩
  | @goes t script script' c callers g w' hgoes =>
    obtain ⟨pending, finished⟩ := g
    obtain ⟨b, rest, handler, hg, hinvoked, hcontained, hroom, hscript, hrest⟩ := hheld.innermost
    obtain rfl : pending = b :: rest := hg
    obtain ⟨hscript', hw'⟩ := hgoes.steady (hscript true) hw
    exact ⟨⟨⟨⟨handler, hinvoked, hcontained, hroom, fun _ => hscript'⟩, hrest⟩, hpending,
      hfinished⟩, hw'⟩
  | @cut t target next c callers g hlimit =>
    -- a call that executes targets has a rank, so it has room for one more
    obtain ⟨_, _, handler, -, -, -, hroom, hscript, -⟩ := hheld.innermost
    obtain ⟨hbelow, -⟩ := hscript true
    dsimp only at hbelow hroom
    omega
  | @refused t target s callers g o rs hs he =>
    refine ⟨⟨(hheld.enters hrank hs).1.resume, hpending, ?_⟩, hw⟩
    intro f hf
    rcases List.mem_cons.mp hf with rfl | hf
    · exact hw
    · exact hfinished f hf
  | @admitted t target s callers g c handler rs hs he =>
    obtain ⟨hcallers, hroom⟩ := hheld.enters hrank hs
    obtain ⟨task, hlookup, rfl⟩ := Dispatch.enter_admitted he
    obtain ⟨hmem, hname⟩ := Dispatch.mem_of_lookup hlookup
    obtain ⟨hscript, hcontained⟩ := hw task hmem c.arguments
    rw [targetRank_of_admitted he] at hroom
    rw [hname] at hscript
    refine ⟨⟨⟨⟨task.handler, rfl, hcontained, hroom, fun _ => hscript⟩, hcallers⟩, ?_, hfinished⟩,
      hw⟩
    intro b hb
    rcases List.mem_cons.mp hb with rfl | hb
    · exact hw
    · exact hpending b hb
  | @ends t script c callers g r hends =>
    obtain ⟨pending, finished⟩ := g
    obtain ⟨b, rest, handler, hg, -, hcontained, -, hscript, hrest⟩ := hheld.innermost
    obtain rfl : pending = b :: rest := hg
    have hresult : (handler c.arguments).result = r := by
      cases hends <;> exact hscript true
    dsimp only at hcontained
    rw [hresult] at hcontained
    obtain ⟨o, ho⟩ := Dispatch.settle_of_ordinary (c := c) hcontained
    refine ⟨⟨?_, fun b' hb => hpending b' (List.mem_cons_of_mem b hb), ?_⟩, hw⟩
    · rw [ho]
      exact hrest.resume
    · intro f hf
      rcases List.mem_cons.mp hf with rfl | hf
      · exact hpending b List.mem_cons_self
      · exact hfinished f hf

theorem Lane.Steady.keeps {l : Lane} (h : l.Steady rank) :
    l.Keeps fun handler args => (handler args).result := by
  intro c r hending b hb handler args hinvoked
  obtain ⟨t, s, pending, finished⟩ := l
  obtain ⟨script, callers, rfl, hends⟩ := Strand.ending?_eq_some_iff.mp hending
  obtain ⟨b', rest, handler', hg, hinvoked', -, -, hscript, -⟩ := h.held.innermost
  obtain rfl : pending = b' :: rest := hg
  obtain rfl := Option.some.inj hb
  rw [hinvoked] at hinvoked'
  cases hinvoked'
  cases hends <;> exact (hscript true).symm

theorem steady_move (hrank : ∀ name, rank name < Dispatch.nestingLimit) (policy : Policy)
    {s : Scene} (hw : s.world.registry.Steady rank) (hs : ∀ l ∈ s.lanes, l.Steady rank) {e : Event}
    (he : e.Steady rank) :
    (s.move policy e).world.registry.Steady rank ∧
      ∀ l ∈ (s.move policy e).lanes, l.Steady rank := by
  cases e with
  | arrive target =>
    refine ⟨hw, fun l hl => ?_⟩
    rcases List.mem_append.mp hl with hl | hl
    · exact hs l hl
    · obtain rfl := List.mem_singleton.mp hl
      exact ⟨trivial, fun _ h => absurd h List.not_mem_nil, fun _ h => absurd h List.not_mem_nil⟩
  | register t => exact ⟨hw.register he, hs⟩
  | step i =>
    rw [Scene.move]
    split
    · exact ⟨hw, hs⟩
    · next l hl =>
      obtain ⟨hl', hw'⟩ :=
        (hs l (List.mem_of_getElem? hl)).turn hrank hw (Lane.step_turn policy l s.world)
      refine ⟨hw', fun l' hmem => ?_⟩
      rcases List.mem_or_eq_of_mem_set hmem with hmem | rfl
      · exact hs l' hmem
      · exact hl'

/-- Steady handlers end as their arguments decide, along every schedule. -/
theorem steady_decide (hrank : ∀ name, rank name < Dispatch.nestingLimit) (policy : Policy)
    {es : List Event} (hes : ∀ e ∈ es, e.Steady rank) {s : Scene}
    (hw : s.world.registry.Steady rank) (hs : ∀ l ∈ s.lanes, l.Steady rank) :
    ArgumentsDecide policy (fun handler args => (handler args).result) es s := by
  induction es generalizing s with
  | nil => trivial
  | cons e es ih =>
    obtain ⟨hw', hs'⟩ := steady_move hrank policy hw hs (hes e List.mem_cons_self)
    exact ⟨fun l hl => (hs l hl).keeps, ih (fun e he => hes e (List.mem_cons_of_mem _ he)) hw' hs'⟩

theorem steady_play (hrank : ∀ name, rank name < Dispatch.nestingLimit) (policy : Policy)
    {es : List Event} (hes : ∀ e ∈ es, e.Steady rank) {s : Scene}
    (hw : s.world.registry.Steady rank) (hs : ∀ l ∈ s.lanes, l.Steady rank) : ∀ l ∈ (s.play policy es).lanes, l.Steady rank := by
  induction es generalizing s with
  | nil => exact hs
  | cons e es ih =>
    obtain ⟨hw', hs'⟩ := steady_move hrank policy hw hs (hes e List.mem_cons_self)
    exact ih (fun e he => hes e (List.mem_cons_of_mem _ he)) hw' hs'

end Callboard
