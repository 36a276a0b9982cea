import Callboard.Proofs.Dispatch.Account
import Callboard.Proofs.Dispatch.Alone
import Callboard.Service

/-!
# The balance of the log

In every schedule the log is what the calls noted about themselves, along with what scripts
and registrations wrote, in some order. So the errors of the dispatcher can be counted by
its calls: one for each that was answered without success and one for each that was made
without its arguments.
-/

set_option autoImplicit false

namespace Callboard

open Dispatch

namespace Ledger

def begun (g : Ledger) : List Begun := g.pending ++ g.finished.map Finished.toBegun

def records (g : Ledger) : List Log.Record := g.begun.flatMap Begun.records

theorem records_eq (pending : List Begun) (finished : List Finished) :
    (Ledger.mk pending finished).records =
      pending.flatMap Begun.records ++ finished.flatMap (fun f => f.records) := by
  simp [records, begun, List.flatMap_map]

end Ledger

namespace Scene

def begun (s : Scene) : List Begun := s.lanes.flatMap (fun l => l.ledger.begun)

def finished (s : Scene) : List Finished := s.lanes.flatMap (fun l => l.ledger.finished)

def records (s : Scene) : List Log.Record := s.lanes.flatMap (fun l => l.ledger.records)

end Scene

/-- What the next step of a script writes on its own account. -/
def Strand.aside (w : World) : Strand → List Log.Record
  | .running (.emit r _) _ _ => [r]
  | .running (.register name _ _ _) _ _ => w.registry.notes name
  | _ => []

namespace Scene

def aside (s : Scene) : Event → List Log.Record
  | .arrive _ => []
  | .register t => s.world.registry.notes t.name
  | .step i =>
    match s.lanes[i]? with
    | none => []
    | some l => l.strand.aside s.world

def asides (policy : Policy) : List Event → Scene → List Log.Record
  | [], _ => []
  | e :: es, s => s.aside e ++ asides policy es (s.move policy e)

end Scene

theorem Script.Goes.log_eq {w w' : World} {script script' : Script} (h : script.Goes w w' script')
    (c : Call) (callers : List Waiting) :
    w'.log = w.log ++ (Strand.running script c callers).aside w := by
  cases h with
  | emit => rfl
  | register => rfl
  | _ => exact (List.append_nil _).symm

theorem Lane.Turn.log_perm {policy : Policy} {w w' : World} {l l' : Lane} (hl : l.Aligned policy)
    (h : Turn policy w l w' l') :
    (w'.log ++ l.ledger.records).Perm (w.log ++ l.strand.aside w ++ l'.ledger.records) := by
  classical
  cases h with
  | rests => simp [Strand.aside]
  | @goes t script script' c callers g w' hgoes => rw [hgoes.log_eq c callers]
  | cut _ => simp [Strand.aside]
  | @refused t target s callers g o rs hs _ =>
    have haside : s.aside w = [] := by cases hs <;> rfl
    obtain ⟨pending, finished⟩ := g
    simp only [haside, World.emit, Ledger.records_eq, List.flatMap_cons, List.perm_iff_count,
      List.count_append, List.count_nil]
    omega
  | @admitted t target s callers g c handler rs hs _ =>
    have haside : s.aside w = [] := by cases hs <;> rfl
    obtain ⟨pending, finished⟩ := g
    simp only [haside, World.emit, Ledger.records_eq, List.flatMap_cons, List.perm_iff_count,
      List.count_append, List.count_nil]
    omega
  | @ends t script c callers g result hends =>
    have haside : (Strand.running script c callers).aside w = [] := by cases hends <;> rfl
    obtain ⟨pending, finished⟩ := g
    -- the call that ends is on the books
    obtain ⟨hpending, -, -⟩ := hl
    cases hpending with | @cons b _ pending _ hb hpending =>
    simp only [haside, World.emit, Ledger.finish, Ledger.records_eq, List.flatMap_cons,
      List.perm_iff_count, List.count_append, List.count_nil]
    omega

namespace Scene

variable {policy : Policy}

theorem records_set {lanes : List Lane} {i : Nat} {l l' : Lane} (h : lanes[i]? = some l) :
    ((lanes.set i l').flatMap (fun l => l.ledger.records) ++ l.ledger.records).Perm
      (lanes.flatMap (fun l => l.ledger.records) ++ l'.ledger.records) := by
  classical
  simp only [List.perm_iff_count, List.count_append]
  intro r
  induction lanes generalizing i with
  | nil => cases h
  | cons k lanes ih =>
    cases i with
    | zero =>
      obtain rfl := Option.some.inj h
      simp only [List.set_cons_zero, List.flatMap_cons, List.count_append]
      omega
    | succ i =>
      have hrest := ih h
      simp only [List.set_cons_succ, List.flatMap_cons, List.count_append]
      omega

theorem move_log_perm {s : Scene} (hs : ∀ l ∈ s.lanes, l.Aligned policy) (e : Event) :
    ((s.move policy e).world.log ++ s.records).Perm
      (s.world.log ++ s.aside e ++ (s.move policy e).records) := by
  classical
  cases e with
  | arrive target => simp [move, aside, records, Lane.fresh, Ledger.empty, Ledger.records_eq]
  | register t => exact .refl _
  | step i =>
    rw [move, aside]
    cases hl : s.lanes[i]? with
    | none => simp
    | some l =>
      have hstep := (Lane.step_turn policy l s.world).log_perm (hs l (List.mem_of_getElem? hl))
      have hset := @records_set s.lanes i l (l.step policy s.world).2 hl
      simp only [records, List.perm_iff_count, List.count_append] at hstep hset ⊢
      intro r
      have hstep := hstep r
      have hset := hset r
      omega

theorem aligned_move {s : Scene} (hs : ∀ l ∈ s.lanes, l.Aligned policy) (e : Event) :
    ∀ l ∈ (s.move policy e).lanes, l.Aligned policy :=
  play_lanes Lane.aligned_fresh (fun l w h => h.turn (Lane.step_turn policy l w)) [e] hs

theorem play_log_perm (es : List Event) {s : Scene} (hs : ∀ l ∈ s.lanes, l.Aligned policy) :
    ((s.play policy es).world.log ++ s.records).Perm
      (s.world.log ++ asides policy es s ++ (s.play policy es).records) := by
  classical
  induction es generalizing s with
  | nil => simp [play, asides]
  | cons e es ih =>
    have hmove := move_log_perm hs e
    have hrest := ih (aligned_move hs e)
    simp only [play, asides, List.perm_iff_count, List.count_append] at hmove hrest ⊢
    intro r
    have hmove := hmove r
    have hrest := hrest r
    omega

end Scene

/-- The call is what the registry of its lookup makes of its target, in whatever way its
handler ended. -/
def Finished.Judged (policy : Policy) (f : Finished) : Prop :=
  ∃ result, f = verdict policy (fun _ _ => result) f.registry f.target

theorem verdict_accounts (policy : Policy) (result : Handler → List Value → Except Failure Value)
    (registry : Registry Handler) (target : Text) : ∃ failure,
      Accounts policy target failure (verdict policy result registry target).records
        (verdict policy result registry target).answer := by
  unfold verdict
  split
  · next o rs he => exact ⟨none, enter_refused_accounts he⟩
  · next c handler rs he =>
    obtain ⟨hcall, front, rfl, hfront⟩ := enter_admitted_accounts he
    exact ⟨_, settle_accounts hcall hfront _⟩

theorem Finished.Judged.accounts {policy : Policy} {f : Finished} (h : f.Judged policy) :
    ∃ failure, Accounts policy f.target failure f.records f.answer := by
  obtain ⟨result, hf⟩ := h
  have haccounts := verdict_accounts policy (fun _ _ => result) f.registry f.target
  rwa [← hf] at haccounts

theorem Begun.For.countP_isError {policy : Policy} {b : Begun} {c : Call} (h : b.For policy c) :
    b.records.countP isError = (fallsBack policy b.target).toNat := by
  obtain ⟨handler, he, -⟩ := h
  obtain ⟨-, front, hrecords, hfront⟩ := enter_admitted_accounts he
  rw [hrecords, List.countP_append, hfront.countP_isError]
  simp [(executingRecord_informs c).not_isError]

namespace Lane

variable {policy : Policy}

def Judged (policy : Policy) (l : Lane) : Prop := ∀ f ∈ l.ledger.finished, f.Judged policy

theorem Judged.turn {w w' : World} {l l' : Lane} (h : l.Judged policy) (hl : l.Aligned policy)
    (hturn : Turn policy w l w' l') : l'.Judged policy := by
  cases hturn with
  | rests => exact h
  | goes _ => exact h
  | cut _ => exact h
  | admitted _ _ => exact h
  | @refused t target s callers g o rs hs he =>
    intro f hf
    rcases List.mem_cons.mp hf with rfl | hf
    · exact ⟨.ok .null, by simp only [verdict, he]⟩
    · exact h f hf
  | @ends t script c callers g result hends =>
    obtain ⟨pending, finished⟩ := g
    obtain ⟨hpending, -, -⟩ := hl
    cases hpending with | @cons b _ pending _ hb hpending =>
    obtain ⟨handler, henter, hinvoked⟩ := hb
    intro f hf
    rcases List.mem_cons.mp hf with rfl | hf
    · exact ⟨result, by simp only [verdict, henter, hinvoked]⟩
    · exact h f hf

theorem judged_play (es : List Event) (w : World) :
    ∀ l ∈ ((Scene.start w).play policy es).lanes, l.Aligned policy ∧ l.Judged policy :=
  Scene.play_lanes (P := fun l => l.Aligned policy ∧ l.Judged policy)
    (fun target => ⟨aligned_fresh target, fun _ hf => absurd hf List.not_mem_nil⟩)
    (fun l w h => ⟨h.1.turn (step_turn policy l w), h.2.turn h.1 (step_turn policy l w)⟩) es
    fun _ hl => absurd hl List.not_mem_nil

theorem pending_balance {pending : List Begun} {calls : List Call}
    (h : List.Forall₂ (Begun.For policy) pending calls) :
    (pending.flatMap Begun.records).countP isError =
      pending.countP (fun b => fallsBack policy b.target) := by
  induction h with
  | nil => rfl
  | @cons b c _ _ hb _ ih =>
    rw [List.flatMap_cons, List.countP_append, List.countP_cons, hb.countP_isError, ih]
    cases fallsBack policy b.target <;> simp [Nat.add_comm]

theorem finished_balance {finished : List Finished} (h : ∀ f ∈ finished, f.Judged policy) :
    (finished.flatMap (fun f => f.records)).countP isError =
      finished.countP (fun f => f.answer.unsuccessful) +
        finished.countP (fun f => fallsBack policy f.target) := by
  induction finished with
  | nil => rfl
  | cons f finished ih =>
    obtain ⟨failure, haccounts⟩ := (h f List.mem_cons_self).accounts
    rw [List.flatMap_cons, List.countP_append, List.countP_cons, List.countP_cons,
      haccounts.countP_isError, ih fun g hg => h g (List.mem_cons_of_mem f hg)]
    cases f.answer.unsuccessful <;> cases fallsBack policy f.target <;> simp <;> omega

theorem balance {l : Lane} (hl : l.Aligned policy) (h : l.Judged policy) :
    l.ledger.records.countP isError =
      l.ledger.finished.countP (fun f => f.answer.unsuccessful) +
        l.ledger.begun.countP (fun b => fallsBack policy b.target) := by
  obtain ⟨t, s, pending, finished⟩ := l
  rw [Ledger.records_eq, List.countP_append, pending_balance hl.pending, finished_balance h,
    Ledger.begun, List.countP_append, List.countP_map]
  simp only [Function.comp_def]
  omega

end Lane

namespace Scene

variable {policy : Policy}

theorem balance {s : Scene} (hs : ∀ l ∈ s.lanes, l.Aligned policy ∧ l.Judged policy) :
    s.records.countP isError = s.finished.countP (fun f => f.answer.unsuccessful) +
      s.begun.countP (fun b => fallsBack policy b.target) := by
  obtain ⟨w, lanes⟩ := s
  simp only [records, finished, begun]
  induction lanes with
  | nil => rfl
  | cons l lanes ih =>
    obtain ⟨hl, hjudged⟩ := hs l List.mem_cons_self
    simp only [List.flatMap_cons, List.countP_append, Lane.balance hl hjudged,
      ih fun k hk => hs k (List.mem_cons_of_mem l hk)]
    omega

end Scene

namespace Scene

/-- Targets that are executed one after the other follow a schedule in which each lane comes
to its end before the next target arrives. -/
theorem executeAll_scheduled (targets : List Text) (s : Service) (lanes : List Lane) :
    ∃ es more, play s.policy es ⟨s.world, lanes⟩ =
        ⟨(s.executeAll targets).1.world, lanes ++ more⟩ ∧
      more.map Lane.target = targets ∧
      more.map Lane.strand = (s.executeAll targets).2.map .done ∧
      ∀ l ∈ more, l.ledger.pending = [] := by
  induction targets generalizing s lanes with
  | nil => exact ⟨[], [], by simp [play, Service.executeAll], rfl, rfl, by simp⟩
  | cons target targets ih =>
    obtain ⟨n, f, finished, hplay, -⟩ := last_ends s.policy target s.world lanes
    obtain ⟨es, more, hrest, htargets, hanswers, hpending⟩ :=
      ih ⟨s.sink, s.policy, (execute s.policy target s.world).1⟩
        (lanes ++ [⟨target, .done (execute s.policy target s.world).2, [], f :: finished⟩])
    refine ⟨(.arrive target :: List.replicate n (.step lanes.length)) ++ es,
      ⟨target, .done (execute s.policy target s.world).2, [], f :: finished⟩ :: more, ?_, ?_, ?_, ?_⟩
    · rw [play_append, hplay, hrest, List.append_assoc]
      rfl
    · rw [List.map_cons, htargets]
    · rw [List.map_cons, hanswers]
      rfl
    · simpa using hpending

/-- Along the schedule every call that has ended is accounted for, and the log holds what the
calls noted and what was written besides. Its errors are those that were in it, those written
besides, one for each call without success and one for each call without its arguments. -/
structure Balanced (policy : Policy) (w : World) (es : List Event) : Prop where
  accounts : ∀ f ∈ ((start w).play policy es).finished,
    ∃ failure, Accounts policy f.target failure f.records f.answer
  log : ((start w).play policy es).world.log.Perm
    (w.log ++ asides policy es (start w) ++ ((start w).play policy es).records)
  errors : ((start w).play policy es).world.log.countP isError =
    w.log.countP isError + (asides policy es (start w)).countP isError +
      (((start w).play policy es).finished.countP (fun f => f.answer.unsuccessful) +
        ((start w).play policy es).begun.countP (fun b => fallsBack policy b.target))

theorem play_balanced (policy : Policy) (w : World) (es : List Event) : Balanced policy w es := by
  have hlanes : ∀ l ∈ ((start w).play policy es).lanes, l.Aligned policy ∧ l.Judged policy :=
    Lane.judged_play es w
  have hstart : ∀ l ∈ (start w).lanes, l.Aligned policy := fun _ hl => absurd hl List.not_mem_nil
  have hlog := play_log_perm es hstart
  have hempty : (start w).records = [] := rfl
  rw [hempty, List.append_nil] at hlog
  refine ⟨fun f hf => ?_, hlog, ?_⟩
  · obtain ⟨l, hl, hf⟩ := List.mem_flatMap.mp hf
    exact ((hlanes l hl).2 f hf).accounts
  · rw [hlog.countP_eq, List.countP_append, List.countP_append, balance hlanes]
    rfl

end Scene

/-- The dispatcher's account of every call. An execution notes what belongs to how it ended
and to what its handler failed with. So does every call of a schedule, the calls inside others
among them, and the log is in balance. To execute targets one after the other is to follow a
schedule at whose end no call is under way. -/
theorem calls_accounted (policy : Policy) (w : World) :
    (∀ depth target, ∃ k, k = course policy (executeWithin policy depth) target w ∧
      executeWithin policy (depth + 1) target w = (k.world w, k.answer) ∧
      Accounts policy target k.failure k.records k.answer) ∧
    (∀ es, Scene.Balanced policy w es) ∧
    ∀ sink targets, ∃ es s, s = (Scene.start w).play policy es ∧
      s.world = (Service.executeAll ⟨sink, policy, w⟩ targets).1.world ∧
      s.lanes.map Lane.target = targets ∧
      s.lanes.map Lane.strand = (Service.executeAll ⟨sink, policy, w⟩ targets).2.map .done ∧
      ∀ l ∈ s.lanes, l.ledger.pending = [] := by
  refine ⟨fun depth target => ?_, Scene.play_balanced policy w, fun sink targets => ?_⟩
  · exact ⟨_, rfl, executeWithin_course policy depth target w, course_accounts policy _ target w⟩
  · obtain ⟨es, lanes, hplay, hlanes⟩ := Scene.executeAll_scheduled targets ⟨sink, policy, w⟩ []
    exact ⟨es, _, rfl, by rw [Scene.start, hplay], by rw [Scene.start, hplay]; exact hlanes⟩

end Callboard
