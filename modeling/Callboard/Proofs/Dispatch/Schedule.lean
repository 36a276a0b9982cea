import Callboard.Dispatch.Board

/-!
# Schedules

Any number of lanes act on one world. A schedule says in which order targets arrive,
tasks are registered from outside and lanes take their steps; nothing about it is
fair or fixed. Along with its strand every lane keeps a ledger of the calls that it
makes. The ledger is only written: a lane does what its strand does.
-/

set_option autoImplicit false

namespace Callboard

/-- A call that has begun: the registry that was asked for its task, the call of a handler
that was made for it, and what the dispatcher noted about it so far. -/
structure Begun where
  target : Text
  registry : Registry Handler
  invoked : Option (Handler × List Value)
  records : List Log.Record

structure Finished extends Begun where
  answer : Answer

/-- The calls that are under way, the innermost first, and those that have ended, the last
one first. -/
structure Ledger where
  pending : List Begun
  finished : List Finished

def World.noted (w w' : World) : List Log.Record := w'.log.drop w.log.length

namespace Strand

def entering? : Strand → Option Text
  | .unstarted target => some target
  | .running (.execute target _) _ callers =>
    if Dispatch.nestingLimit ≤ callers.length + 1 then none else some target
  | _ => none

def ending? : Strand → Option (Call × Except Failure Value)
  | .running (.complete v) c _ => some (c, .ok v)
  | .running (.fail f) c _ => some (c, .error f)
  | _ => none

end Strand

namespace Ledger

def empty : Ledger := ⟨[], []⟩

def enter (policy : Policy) (target : Text) (registry : Registry Handler)
    (records : List Log.Record) (g : Ledger) : Ledger :=
  match (Dispatch.enter policy registry target).1 with
  | .refused o => ⟨g.pending, ⟨⟨target, registry, none, records⟩, .outcome o⟩ :: g.finished⟩
  | .admitted c handler =>
    ⟨⟨target, registry, some (handler, c.arguments), records⟩ :: g.pending, g.finished⟩

def finish (a : Answer) (records : List Log.Record) (g : Ledger) : Ledger :=
  match g.pending with
  | [] => g
  | b :: pending =>
    ⟨pending, ⟨⟨b.target, b.registry, b.invoked, b.records ++ records⟩, a⟩ :: g.finished⟩

def turn (policy : Policy) (s : Strand) (w w' : World) (g : Ledger) : Ledger :=
  match s.entering?, s.ending? with
  | some target, _ => g.enter policy target w.registry (w.noted w')
  | none, some (c, result) => g.finish (c.settle result).1 (w.noted w')
  | none, none => g

end Ledger

structure Lane where
  target : Text
  strand : Strand
  ledger : Ledger

namespace Lane

def fresh (target : Text) : Lane := ⟨target, .unstarted target, .empty⟩

def step (policy : Policy) (l : Lane) (w : World) : World × Lane :=
  ((l.strand.step policy w).1,
    ⟨l.target, (l.strand.step policy w).2, l.ledger.turn policy l.strand w (l.strand.step policy w).1⟩)

end Lane

structure Scene where
  world : World
  lanes : List Lane

inductive Event where
  /-- A target is to be executed, on a lane of its own. -/
  | arrive (target : Text)
  | register (t : Descriptor Handler)
  | step (i : Nat)

namespace Scene

def start (w : World) : Scene := ⟨w, []⟩

def move (policy : Policy) (s : Scene) : Event → Scene
  | .arrive target => ⟨s.world, s.lanes ++ [.fresh target]⟩
  | .register t => ⟨s.world.register t, s.lanes⟩
  | .step i =>
    match s.lanes[i]? with
    | none => s
    | some l => ⟨(l.step policy s.world).1, s.lanes.set i (l.step policy s.world).2⟩

def play (policy : Policy) : List Event → Scene → Scene
  | [], s => s
  | e :: es, s => play policy es (s.move policy e)

theorem play_append (policy : Policy) (es fs : List Event) (s : Scene) :
    play policy (es ++ fs) s = play policy fs (play policy es s) := by
  induction es generalizing s with
  | nil => rfl
  | cons e es ih => exact ih _

theorem play_lanes {policy : Policy} {P : Lane → Prop} (hfresh : ∀ target, P (.fresh target))
    (hstep : ∀ l w, P l → P (l.step policy w).2) (es : List Event) {s : Scene}
    (hs : ∀ l ∈ s.lanes, P l) : ∀ l ∈ (s.play policy es).lanes, P l := by
  induction es generalizing s with
  | nil => exact hs
  | cons e es ih =>
    apply ih
    cases e with
    | arrive target =>
      intro l hl
      rcases List.mem_append.mp hl with hl | hl
      · exact hs l hl
      · obtain rfl := List.mem_singleton.mp hl
        exact hfresh target
    | register t => exact hs
    | step i =>
      rw [move]
      split
      · exact hs
      · next l hl =>
        intro l' hl'
        rcases List.mem_or_eq_of_mem_set hl' with hl' | rfl
        · exact hs l' hl'
        · exact hstep l s.world (hs l (List.mem_of_getElem? hl))

end Scene

inductive Script.Goes (w : World) : Script → World → Script → Prop where
  | pause {next : Script} : Goes w (.pause next) w next
  | note {n : Note} {next : Script} : Goes w (.note n next) (w.note n) next
  | emit {r : Log.Record} {next : Script} : Goes w (.emit r next) (w.emit [r]) next
  | visit {k : Counter} {next : Nat → Script} :
      Goes w (.visit k next) (w.visit k) (next (w.visited k))
  | register {name description : Text} {handler : List Value → Script} {next : Script} :
      Goes w (.register name description handler next) (w.register ⟨name, description, handler⟩)
        next

inductive Script.Ends : Script → Except Failure Value → Prop where
  | complete (v : Value) : Ends (.complete v) (.ok v)
  | fail (f : Failure) : Ends (.fail f) (.error f)

theorem Strand.ending?_eq_some_iff {s : Strand} {c : Call} {result : Except Failure Value} :
    s.ending? = some (c, result) ↔
      ∃ script callers, s = .running script c callers ∧ script.Ends result := by
  constructor
  · intro h
    cases s with
    | unstarted target => cases h
    | done a => cases h
    | running script c' callers =>
      cases script with
      | complete v =>
        cases h
        exact ⟨_, _, rfl, .complete v⟩
      | fail f =>
        cases h
        exact ⟨_, _, rfl, .fail f⟩
      | _ => cases h
  · rintro ⟨script, callers, rfl, hends⟩
    cases hends <;> rfl

inductive Strand.Enters : Strand → Text → List Waiting → Prop where
  | first (target : Text) : Enters (.unstarted target) target []
  | nested (target : Text) (next : Bool → Script) (c : Call) {callers : List Waiting}
      (h : callers.length + 1 < Dispatch.nestingLimit) :
      Enters (.running (.execute target next) c callers) target (⟨c, next⟩ :: callers)

/-- All that a step of a lane can do. -/
inductive Lane.Turn (policy : Policy) (w : World) : Lane → World → Lane → Prop where
  | rests {t : Text} {a : Answer} {g : Ledger} : Turn policy w ⟨t, .done a, g⟩ w ⟨t, .done a, g⟩
  | goes {t : Text} {script script' : Script} {c : Call} {callers : List Waiting} {g : Ledger}
      {w' : World} (h : script.Goes w w' script') :
      Turn policy w ⟨t, .running script c callers, g⟩ w' ⟨t, .running script' c callers, g⟩
  | cut {t target : Text} {next : Bool → Script} {c : Call} {callers : List Waiting} {g : Ledger}
      (h : Dispatch.nestingLimit ≤ callers.length + 1) :
      Turn policy w ⟨t, .running (.execute target next) c callers, g⟩ w
        ⟨t, .running (.fail Dispatch.nestedTooDeep) c callers, g⟩
  | refused {t target : Text} {s : Strand} {callers : List Waiting} {g : Ledger} {o : Outcome}
      {rs : List Log.Record} (hs : s.Enters target callers)
      (he : Dispatch.enter policy w.registry target = (.refused o, rs)) :
      Turn policy w ⟨t, s, g⟩ (w.emit rs)
        ⟨t, .resume (.outcome o) callers,
          g.pending, ⟨⟨target, w.registry, none, rs⟩, .outcome o⟩ :: g.finished⟩
  | admitted {t target : Text} {s : Strand} {callers : List Waiting} {g : Ledger} {c : Call}
      {handler : Handler} {rs : List Log.Record} (hs : s.Enters target callers)
      (he : Dispatch.enter policy w.registry target = (.admitted c handler, rs)) :
      Turn policy w ⟨t, s, g⟩ (w.emit rs)
        ⟨t, .running (handler c.arguments) c callers,
          ⟨target, w.registry, some (handler, c.arguments), rs⟩ :: g.pending, g.finished⟩
  | ends {t : Text} {script : Script} {c : Call} {callers : List Waiting} {g : Ledger}
      {result : Except Failure Value} (h : script.Ends result) :
      Turn policy w ⟨t, .running script c callers, g⟩ (w.emit (c.settle result).2)
        ⟨t, .resume (c.settle result).1 callers, g.finish (c.settle result).1 (c.settle result).2⟩

theorem World.noted_emit (w : World) (rs : List Log.Record) : w.noted (w.emit rs) = rs := by
  simp [noted, emit]

namespace Lane

variable {policy : Policy} {w : World}

theorem start_enters (policy : Policy) (w : World) {s : Strand} {target : Text}
    {callers : List Waiting} (hs : s.Enters target callers) :
    s.entering? = some target ∧ s.step policy w =
      match Dispatch.enter policy w.registry target with
      | (.refused o, rs) => (w.emit rs, .resume (.outcome o) callers)
      | (.admitted c handler, rs) => (w.emit rs, .running (handler c.arguments) c callers) := by
  cases hs with
  | first _ =>
    have hlimit : ¬ Dispatch.nestingLimit ≤ ([] : List Waiting).length := by decide
    refine ⟨rfl, ?_⟩
    show Strand.start policy target [] w = _
    unfold Strand.start
    exact if_neg hlimit
  | nested _ _ _ h => exact ⟨if_neg (Nat.not_le.mpr h), if_neg (Nat.not_le.mpr h)⟩

theorem Turn.step_eq {l l' : Lane} {w' : World} (h : Turn policy w l w' l') :
    l.step policy w = (w', l') := by
  cases h with
  | rests => rfl
  | goes h => cases h <;> rfl
  | cut h =>
    simp [step, Strand.step, Strand.start, h, Ledger.turn, Strand.entering?, Strand.ending?,
      Strand.resume]
  | refused hs he =>
    obtain ⟨hentering, hstart⟩ := start_enters policy w hs
    rw [he] at hstart
    simp [step, hstart, Ledger.turn, hentering, World.noted_emit, Ledger.enter, he]
  | admitted hs he =>
    obtain ⟨hentering, hstart⟩ := start_enters policy w hs
    rw [he] at hstart
    simp [step, hstart, Ledger.turn, hentering, World.noted_emit, Ledger.enter, he]
  | ends h =>
    cases h <;> simp [step, Strand.step, Strand.finish, Ledger.turn, Strand.entering?,
      Strand.ending?, World.noted_emit]

theorem turn_enters {t target : Text} {s : Strand} {callers : List Waiting} {g : Ledger}
    (hs : s.Enters target callers) : ∃ w' l', Turn policy w ⟨t, s, g⟩ w' l' := by
  cases he : Dispatch.enter policy w.registry target with | mk entry rs =>
  cases entry with
  | refused o => exact ⟨_, _, .refused hs he⟩
  | admitted c handler => exact ⟨_, _, .admitted hs he⟩

theorem exists_turn (policy : Policy) (l : Lane) (w : World) : ∃ w' l', Turn policy w l w' l' := by
  obtain ⟨t, s, g⟩ := l
  cases s with
  | unstarted target => exact turn_enters (.first target)
  | done a => exact ⟨_, _, .rests⟩
  | running script c callers =>
    cases script with
    | complete v => exact ⟨_, _, .ends (.complete v)⟩
    | fail f => exact ⟨_, _, .ends (.fail f)⟩
    | pause next => exact ⟨_, _, .goes .pause⟩
    | note n next => exact ⟨_, _, .goes .note⟩
    | emit r next => exact ⟨_, _, .goes .emit⟩
    | visit k next => exact ⟨_, _, .goes .visit⟩
    | register name description handler next => exact ⟨_, _, .goes .register⟩
    | execute target next =>
      by_cases h : Dispatch.nestingLimit ≤ callers.length + 1
      · exact ⟨_, _, .cut h⟩
      · exact turn_enters (.nested target next c (Nat.lt_of_not_le h))

theorem step_turn (policy : Policy) (l : Lane) (w : World) :
    Turn policy w l (l.step policy w).1 (l.step policy w).2 := by
  obtain ⟨w', l', h⟩ := exists_turn policy l w
  rw [h.step_eq]
  exact h

/-- Only a script that registers a task changes the registry. -/
theorem step_registry (l : Lane) (w : World) :
    (l.step policy w).1.registry = w.registry ∨
      ∃ name description handler next c callers,
        l.strand = .running (.register name description handler next) c callers ∧
          (l.step policy w).1.registry = (w.registry.register ⟨name, description, handler⟩).1 := by
  have hturn := step_turn policy l w
  generalize (l.step policy w).1 = w' at hturn
  generalize (l.step policy w).2 = l' at hturn
  cases hturn with
  | goes h =>
    cases h with
    | register => exact .inr ⟨_, _, _, _, _, _, rfl, rfl⟩
    | _ => exact .inl rfl
  | _ => exact .inl rfl

end Lane

end Callboard
