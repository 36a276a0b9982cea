import Callboard.Proofs.Dispatch.Schedule

/-!
# A lane that runs alone

Without other lanes a target that has been entered comes to its end: the lane does what
executing the target does, and the call is the last one that has ended in the ledger.
The induction is on how many executions may still be nested, and on the script of the
call.
-/

set_option autoImplicit false

namespace Callboard

namespace Lane

def steps (policy : Policy) : Nat → World × Lane → World × Lane
  | 0, x => x
  | n + 1, x => steps policy n (x.2.step policy x.1)

theorem steps_add (policy : Policy) (m n : Nat) (x : World × Lane) :
    steps policy (m + n) x = steps policy n (steps policy m x) := by
  induction m generalizing x with
  | zero => rw [Nat.zero_add, steps]
  | succ m ih => rw [Nat.succ_add, steps, steps, ih]

def Reaches (policy : Policy) (x y : World × Lane) : Prop := ∃ n, steps policy n x = y

variable {policy : Policy}

theorem Reaches.trans {x y z : World × Lane} (hxy : Reaches policy x y) (hyz : Reaches policy y z) :
    Reaches policy x z := by
  obtain ⟨m, rfl⟩ := hxy
  obtain ⟨n, rfl⟩ := hyz
  exact ⟨m + n, steps_add policy m n x⟩

theorem Turn.reaches {w w' : World} {l l' : Lane} (h : Turn policy w l w' l') :
    Reaches policy (w, l) (w', l') := ⟨1, h.step_eq⟩

/-- With this many nested executions left, a target that is entered is executed, and the lane
goes on with the answer. -/
def Enterable (policy : Policy) (depth : Nat) : Prop :=
  ∀ {t target : Text} {s : Strand} {callers : List Waiting} {g : Ledger} (w : World),
    s.Enters target callers → callers.length + depth = Dispatch.nestingLimit →
    ∃ f finished, Reaches policy (w, ⟨t, s, g⟩)
        ((Dispatch.executeWithin policy depth target w).1,
          ⟨t, .resume (Dispatch.executeWithin policy depth target w).2 callers,
            g.pending, f :: finished⟩) ∧
      f.target = target ∧ f.registry = w.registry ∧
        f.answer = (Dispatch.executeWithin policy depth target w).2

theorem script_reaches {depth : Nat} (hdepth : 0 < depth → Enterable policy depth) {t : Text}
    {c : Call} {callers : List Waiting}
    (hlength : callers.length + 1 + depth = Dispatch.nestingLimit) (b : Begun)
    (pending : List Begun) (script : Script) (finished : List Finished) (w : World) :
    ∃ f finished', Reaches policy (w, ⟨t, .running script c callers, b :: pending, finished⟩)
        ((script.run (Dispatch.executeWithin policy depth) w).1.emit
            (c.settle (script.run (Dispatch.executeWithin policy depth) w).2).2,
          ⟨t, .resume (c.settle (script.run (Dispatch.executeWithin policy depth) w).2).1 callers,
            pending, f :: finished'⟩) ∧
      f.target = b.target ∧ f.registry = b.registry ∧
        f.answer = (c.settle (script.run (Dispatch.executeWithin policy depth) w).2).1 := by
  induction script generalizing finished w with
  | complete v => exact ⟨_, _, (Turn.ends (.complete v)).reaches, rfl, rfl, rfl⟩
  | fail f => exact ⟨_, _, (Turn.ends (.fail f)).reaches, rfl, rfl, rfl⟩
  | pause next ih =>
    obtain ⟨f, finished', hnext, hf⟩ := ih finished w
    exact ⟨f, finished', (Turn.goes .pause).reaches.trans hnext, hf⟩
  | note n next ih =>
    obtain ⟨f, finished', hnext, hf⟩ := ih finished (w.note n)
    exact ⟨f, finished', (Turn.goes .note).reaches.trans hnext, hf⟩
  | emit r next ih =>
    obtain ⟨f, finished', hnext, hf⟩ := ih finished (w.emit [r])
    exact ⟨f, finished', (Turn.goes .emit).reaches.trans hnext, hf⟩
  | visit k next ih =>
    obtain ⟨f, finished', hnext, hf⟩ := ih (w.visited k) finished (w.visit k)
    exact ⟨f, finished', (Turn.goes .visit).reaches.trans hnext, hf⟩
  | register name description handler next _ ih =>
    obtain ⟨f, finished', hnext, hf⟩ := ih finished (w.register ⟨name, description, handler⟩)
    exact ⟨f, finished', (Turn.goes .register).reaches.trans hnext, hf⟩
  | execute target next ih =>
    -- the answer is a failure that goes on, or the script goes on with the success
    have hfails : ∀ (finished : List Finished) (w : World) (e : Failure), ∃ f finished',
        Reaches policy (w, ⟨t, .running (.fail e) c callers, b :: pending, finished⟩)
          (w.emit (c.settle (.error e)).2,
            ⟨t, .resume (c.settle (.error e)).1 callers, pending, f :: finished'⟩) ∧
        f.target = b.target ∧ f.registry = b.registry ∧ f.answer = (c.settle (.error e)).1 :=
      fun finished w e => ⟨_, _, (Turn.ends (.fail e)).reaches, rfl, rfl, rfl⟩
    have hanswered : ∃ finished₁, Reaches policy
        (w, ⟨t, .running (.execute target next) c callers, b :: pending, finished⟩)
        ((Dispatch.executeWithin policy depth target w).1,
          ⟨t, .resume (Dispatch.executeWithin policy depth target w).2 (⟨c, next⟩ :: callers),
            b :: pending, finished₁⟩) := by
      cases depth with
      | zero => exact ⟨finished, (Turn.cut (Nat.le_of_eq hlength.symm)).reaches⟩
      | succ depth =>
        have hlimit : callers.length + 1 < Dispatch.nestingLimit := by omega
        obtain ⟨f, finished₁, hreaches, -⟩ := hdepth (Nat.succ_pos depth) (t := t)
          (g := ⟨b :: pending, finished⟩) w (.nested target next c hlimit) hlength
        exact ⟨f :: finished₁, hreaches⟩
    obtain ⟨finished₁, hanswered⟩ := hanswered
    rw [Script.run]
    split
    · next w₁ o heq =>
      rw [heq] at hanswered
      obtain ⟨f, finished', hnext, hf⟩ := ih o.success finished₁ w₁
      exact ⟨f, finished', hanswered.trans hnext, hf⟩
    · next w₁ e heq =>
      rw [heq] at hanswered
      obtain ⟨f, finished', hnext, hf⟩ := hfails finished₁ w₁ e
      exact ⟨f, finished', hanswered.trans hnext, hf⟩

theorem enterable (policy : Policy) (depth : Nat) (hpos : 0 < depth) : Enterable policy depth := by
  induction depth with
  | zero => exact absurd hpos (Nat.lt_irrefl 0)
  | succ depth ih =>
    intro t target s callers g w hs hlength
    rw [Dispatch.executeWithin]
    split
    · next o rs he => exact ⟨_, _, (Turn.refused hs he).reaches, rfl, rfl, rfl⟩
    · next c handler rs he =>
      have hlimit : callers.length + 1 + depth = Dispatch.nestingLimit := by omega
      obtain ⟨f, finished, hscript, hf⟩ := script_reaches ih (t := t) (c := c) hlimit
        ⟨target, w.registry, some (handler, c.arguments), rs⟩ g.pending (handler c.arguments)
        g.finished (w.emit rs)
      exact ⟨f, finished, (Turn.admitted hs he).reaches.trans hscript, hf⟩

end Lane

namespace Scene

theorem play_steps (policy : Policy) (n : Nat) (w : World) (lanes : List Lane) (l : Lane) :
    play policy (List.replicate n (.step lanes.length)) ⟨w, lanes ++ [l]⟩ =
      ⟨(Lane.steps policy n (w, l)).1, lanes ++ [(Lane.steps policy n (w, l)).2]⟩ := by
  induction n generalizing w l with
  | zero => rfl
  | succ n ih =>
    have hlane : (lanes ++ [l])[lanes.length]? = some l := by simp
    have hmove : move policy ⟨w, lanes ++ [l]⟩ (.step lanes.length) =
        ⟨(l.step policy w).1, lanes ++ [(l.step policy w).2]⟩ := by
      simp only [move, hlane]
      simp
    rw [List.replicate_succ, play, hmove]
    exact ih _ _

theorem last_ends (policy : Policy) (target : Text) (w : World) (lanes : List Lane) :
    ∃ n f finished, play policy (.arrive target :: List.replicate n (.step lanes.length))
        ⟨w, lanes⟩ = ⟨(Dispatch.execute policy target w).1,
          lanes ++ [⟨target, .done (Dispatch.execute policy target w).2, [], f :: finished⟩]⟩ ∧
      f.target = target ∧ f.registry = w.registry ∧
        f.answer = (Dispatch.execute policy target w).2 := by
  obtain ⟨f, finished, ⟨n, hn⟩, hf⟩ := Lane.enterable policy Dispatch.nestingLimit (by decide)
    (t := target) (g := .empty) w (.first target) rfl
  refine ⟨n, f, finished, ?_, hf⟩
  have hplay := play_steps policy n w lanes (.fresh target)
  rw [Lane.fresh, hn] at hplay
  exact hplay

def solo (target : Text) (n : Nat) : List Event := .arrive target :: List.replicate n (.step 0)

theorem solo_ends (policy : Policy) (target : Text) (w : World) :
    ∃ n l f finished, (start w).play policy (solo target n) =
        ⟨(Dispatch.execute policy target w).1, [l]⟩ ∧
      l.strand = .done (Dispatch.execute policy target w).2 ∧ l.ledger.finished = f :: finished ∧
      f.target = target ∧ f.registry = w.registry ∧
        f.answer = (Dispatch.execute policy target w).2 := by
  obtain ⟨n, f, finished, hplay, hf⟩ := last_ends policy target w []
  exact ⟨n, _, f, finished, hplay, rfl, rfl, hf⟩

end Scene

end Callboard
