import Callboard.Proofs.Dispatch.Account
import Callboard.Proofs.Http.Run

/-!
# What clients cannot learn

Two interfaces whose handlers end alike cannot be told apart by what they are asked to run,
whatever the handlers return, fail with or do meanwhile. A failure that nothing else answers
is answered in the same way as every other.
-/

set_option autoImplicit false

namespace Callboard

open Dispatch Text

inductive EndsAlike : Except Failure Value → Except Failure Value → Prop where
  | completed (v v' : Value) : EndsAlike (.ok v) (.ok v')
  | failed {f f' : Failure} (h : f.ordinary = true) (h' : f'.ordinary = true) :
      EndsAlike (.error f) (.error f')

theorem EndsAlike.settle {result result' : Except Failure Value} (h : EndsAlike result result')
    (c : Call) : ∃ o, (c.settle result).1 = .outcome o ∧ (c.settle result').1 = .outcome o := by
  cases h with
  | completed v v' => exact ⟨_, rfl, rfl⟩
  | failed h h' =>
    rw [Call.settle, Call.settle, if_pos h, if_pos h']
    exact ⟨_, rfl, rfl⟩

namespace World

def called (policy : Policy) (w : World) (handler : Handler) (args : List Value) :
    Except Failure Value :=
  ((handler args).run (executeWithin policy (nestingLimit - 1)) w).2

/-- The worlds have tasks of the same names, and the handlers of a name end alike, whatever
arguments they are called with. -/
def Alike (policy : Policy) (w w' : World) : Prop :=
  ∀ name, Option.Rel
    (fun t t' => ∀ args,
      EndsAlike (w.called policy t.handler args) (w'.called policy t'.handler args))
    (w.registry.lookup name) (w'.registry.lookup name)

end World

namespace Dispatch

theorem run_emit_result (policy : Policy) (depth : Nat) (rs : List Log.Record) (s : Script)
    (w : World) : (s.run (executeWithin policy depth) (w.emit rs)).2 =
      (s.run (executeWithin policy depth) w).2 := by
  have hforgetful := executeWithin_forgetful policy depth
  have hnone := Script.run_emit hforgetful [] s w
  rw [World.emit_nil] at hnone
  rw [Script.run_emit hforgetful rs s w, hnone]

theorem execute_answer (policy : Policy) (target : Text) (w : World) :
    (execute policy target w).2 =
      match (enter policy w.registry target).1 with
      | .refused o => .outcome o
      | .admitted c handler => (c.settle (w.called policy handler c.arguments)).1 := by
  show (executeWithin policy (nestingLimit - 1 + 1) target w).2 = _
  rw [executeWithin]
  cases he : enter policy w.registry target with | mk entry rs =>
  cases entry with
  | refused o => rfl
  | admitted c handler =>
    show (c.settle ((handler c.arguments).run _ (w.emit rs)).2).1 = _
    rw [run_emit_result]
    rfl

theorem execute_alike {policy : Policy} {w w' : World} (h : w.Alike policy w') (target : Text) :
    ∃ o, (execute policy target w).2 = .outcome o ∧ (execute policy target w').2 = .outcome o := by
  rw [execute_answer, execute_answer]
  rcases enter_cases Handler policy target with ⟨o, rs, -, henter⟩ | ⟨c, front, -, -, henter⟩
  · rw [henter, henter]
    exact ⟨o, rfl, rfl⟩
  · rw [henter, henter, Call.entry, Call.entry]
    have htask := h c.task
    -- all that the worlds are asked for is the handler
    generalize w.registry.lookup c.task = found at htask ⊢
    generalize w'.registry.lookup c.task = found' at htask ⊢
    cases htask with
    | none => exact ⟨_, rfl, rfl⟩
    | some hends => exact (hends c.arguments).settle c

end Dispatch

def Registry.listing {η : Type} (r : Registry η) : List TaskInfo :=
  r.tasks.map TaskInfo.ofDescriptor

namespace Http.App

section
variable {η : Type} {r r' : Registry η} (h : r.listing = r'.listing)
include h

theorem readiness_congr : readiness r.size = readiness r'.size := by
  have hlength := congrArg List.length h
  rw [Registry.listing, Registry.listing, List.length_map, List.length_map] at hlength
  rw [Registry.size, Registry.size, hlength]

theorem listTasks_congr : listTasks r = listTasks r' := by
  have hvalues := congrArg (List.map TaskInfo.toValue) h
  rw [Registry.listing, Registry.listing, List.map_map, List.map_map] at hvalues
  exact congrArg (fun vs => Result.described (.list vs)) hvalues

theorem describeTask_congr (name : Text) : describeTask r name = describeTask r' name := by
  have hfound := congrArg (List.find? (fun i => i.name == name)) h
  rw [Registry.listing, Registry.listing, List.find?_map, List.find?_map] at hfound
  have hlookup : (r.lookup name).map TaskInfo.ofDescriptor =
      (r'.lookup name).map TaskInfo.ofDescriptor := hfound
  unfold describeTask
  cases hr : r.lookup name with
  | none =>
    rw [hr, Option.map_none, eq_comm, Option.map_eq_none_iff] at hlookup
    rw [hlookup]
  | some t =>
    rw [hr, Option.map_some, eq_comm, Option.map_eq_some_iff] at hlookup
    obtain ⟨t', ht', hinfo⟩ := hlookup
    rw [ht']
    simp only [hinfo]

end

structure Beside (policy : Policy) (R : World → World → Prop) (a b : App) : Prop where
  ready : a.access = .ready ∧ b.access = .ready
  policy : a.policy = policy ∧ b.policy = policy
  limit : b.limit = a.limit
  origins : b.origins = a.origins
  worlds : R a.world b.world

/-- Two interfaces come to the same: they do nothing but note the same, or they execute the
same target before that. -/
inductive Moves {α : Type} (a b : App) : App × α → App × α → Prop where
  | notes (rs : List Log.Record) (x : α) : Moves a b (a.emit rs, x) (b.emit rs, x)
  | executes (target : Text) (rs : List Log.Record) (x : α) :
      Moves a b ((a.inWorld (Dispatch.execute a.policy target a.world).1).emit rs, x)
        ((b.inWorld (Dispatch.execute b.policy target b.world).1).emit rs, x)

section
variable {a b : App}

theorem Moves.answers {α : Type} (x : α) : Moves a b (a, x) (b, x) := by
  have h := Moves.notes (a := a) (b := b) [] x
  rwa [emit_nil, emit_nil] at h

theorem Moves.executed {α : Type} (target : Text) (x : α) :
    Moves a b (a.inWorld (Dispatch.execute a.policy target a.world).1, x)
      (b.inWorld (Dispatch.execute b.policy target b.world).1, x) := by
  have h := Moves.executes (a := a) (b := b) target [] x
  rwa [emit_nil, emit_nil] at h

theorem Moves.same {α : Type} {x y : App × α} (h : Moves a b x y) : x.2 = y.2 := by
  cases h with
  | notes rs x => rfl
  | executes target rs x => rfl

theorem Moves.map {α β : Type} {x y : App × α} (h : Moves a b x y) (f : α → β) :
    Moves a b (x.1, f x.2) (y.1, f y.2) := by
  cases h with
  | notes rs x => exact .notes rs (f x)
  | executes target rs x => exact .executes target rs (f x)

theorem emit_emit (a : App) (rs ss : List Log.Record) : (a.emit rs).emit ss = a.emit (rs ++ ss) := by
  rw [emit, emit, emit, World.emit_append]

theorem Moves.conclude {x y : App × Result} (h : Moves a b x y) (time : Timestamp) (path : Text)
    (headers : List (Text × Text)) :
    Moves a b (conclude time path headers x) (conclude time path headers y) := by
  cases h with
  | notes rs x =>
    rw [App.conclude, App.conclude, emit_emit, emit_emit]
    exact .notes _ _
  | executes target rs x =>
    rw [App.conclude, App.conclude, emit_emit, emit_emit]
    exact .executes target _ _

theorem respond_moves (horigins : b.origins = a.origins) (time : Timestamp) {r : Request}
    (h : ∀ e, Route.decide r.method r.target.path = .answer e →
      Moves a b (a.runEndpoint e (sentBody r)) (b.runEndpoint e (sentBody r))) :
    Moves a b (a.respond time r) (b.respond time r) := by
  have hheaders : b.originHeaders r = a.originHeaders r := by
    rw [originHeaders, originHeaders, horigins]
  -- nothing but an endpoint gets at the worlds
  have hfully : Moves a b (a.respondFully time r) (b.respondFully time r) := by
    rw [respondFully, respondFully, hheaders]
    cases hroute : Route.decide r.method r.target.path with
    | answer e => exact (h e hroute).conclude time _ _
    | methodNotAllowed allowed => exact (Moves.answers _).conclude time _ _
    | redirect path => exact .answers _
    | notFound => exact (Moves.answers _).conclude time _ _
  exact hfully.map fun answered => if r.method.isHead then answered.map withoutBody else answered

end

section
variable {policy : Policy} {a b : App} (h : Beside policy (World.Alike policy) a b)
include h

theorem runTarget_moves (q : RunRequest) : Moves a b (a.runTarget q) (b.runTarget q) := by
  obtain ⟨o, ho, ho'⟩ := Dispatch.execute_alike h.worlds q.target
  rw [← h.policy.1] at ho
  rw [← h.policy.2] at ho'
  rw [runTarget_outcome h.ready.1 (Prod.ext rfl ho), runTarget_outcome h.ready.2 (Prod.ext rfl ho')]
  exact .executed q.target _

theorem runBody_moves (body : Body) : Moves a b (a.runBody body) (b.runBody body) := by
  cases body with
  | malformed position => exact .answers _
  | unreadable => exact .answers _
  | absent =>
    rw [runBody, runBody, withTasks_of_ready h.ready.1, withTasks_of_ready h.ready.2]
    exact .answers _
  | foreign =>
    rw [runBody, runBody, withTasks_of_ready h.ready.1, withTasks_of_ready h.ready.2]
    exact .answers _
  | value v =>
    rw [runBody, runBody, withTasks_of_ready h.ready.1, withTasks_of_ready h.ready.2, h.limit]
    cases RunRequest.breach? a.limit v with
    | some e => exact .answers _
    | none =>
      cases checkBody a.limit v with
      | error issues => exact .answers _
      | ok q => exact runTarget_moves h q

theorem reading_moves (look : Registry Handler → Result)
    (hlook : look a.world.registry = look b.world.registry) :
    Moves a b (a.reading look) (b.reading look) := by
  rw [reading_of_ready h.ready.1, reading_of_ready h.ready.2, hlook]
  exact .answers _

theorem runEndpoint_moves (hlisting : a.world.registry.listing = b.world.registry.listing)
    (e : Endpoint) (body : Body) : Moves a b (a.runEndpoint e body) (b.runEndpoint e body) := by
  cases e with
  | health => exact .answers _
  | ready => exact reading_moves h (fun r => readiness r.size) (readiness_congr hlisting)
  | tasks => exact reading_moves h _ (listTasks_congr hlisting)
  | task name => exact reading_moves h (describeTask · name) (describeTask_congr hlisting name)
  | run => exact runBody_moves h body

end

def answers (a : App) : List (Timestamp × Request) → List (Except Failure Response)
  | [] => []
  | (time, r) :: rest => (a.respond time r).2 :: (a.respond time r).1.answers rest

/-- A relation between worlds in which handlers end alike, that is kept by whatever requests
make of the worlds. -/
structure Unwinds (policy : Policy) (R : World → World → Prop) : Prop where
  alike : ∀ {w w'}, R w w' → w.Alike policy w'
  listing : ∀ {w w'}, R w w' → w.registry.listing = w'.registry.listing
  notes : ∀ {w w'}, R w w' → ∀ rs, R (w.emit rs) (w'.emit rs)
  executes : ∀ {w w'}, R w w' → ∀ target,
    R (Dispatch.execute policy target w).1 (Dispatch.execute policy target w').1

section
variable {policy : Policy} {R : World → World → Prop} (hR : Unwinds policy R) {a b : App}
include hR

theorem Beside.moves (h : Beside policy R a b) {α : Type} {x y : App × α} (hmoves : Moves a b x y) :
    Beside policy R x.1 y.1 := by
  cases hmoves with
  | notes rs x => exact ⟨h.ready, h.policy, h.limit, h.origins, hR.notes h.worlds rs⟩
  | executes target rs x =>
    refine ⟨h.ready, h.policy, h.limit, h.origins, hR.notes ?_ rs⟩
    rw [h.policy.1, h.policy.2]
    exact hR.executes h.worlds target

theorem Beside.respond (h : Beside policy R a b) (time : Timestamp) (r : Request) :
    Moves a b (a.respond time r) (b.respond time r) := by
  have halike : Beside policy (World.Alike policy) a b :=
    ⟨h.ready, h.policy, h.limit, h.origins, hR.alike h.worlds⟩
  exact respond_moves h.origins time fun e _ =>
    runEndpoint_moves halike (hR.listing h.worlds) e _

theorem Beside.answers (h : Beside policy R a b) (rs : List (Timestamp × Request)) :
    a.answers rs = b.answers rs := by
  induction rs generalizing a b with
  | nil => rfl
  | cons r rs ih =>
    have hmoves := h.respond hR r.1 r.2
    rw [App.answers, App.answers, hmoves.same, ih (h.moves hR hmoves)]

end

/-- The failure that comes out of an endpoint: it is the result, and no problem, or it is what
keeps the result from being sent. -/
inductive Escapes (time : Timestamp) : Result → Failure → Prop where
  | raised {f : Failure} (h : f.ordinary = true) (hp : ∀ p : Problem, f ≠ p.toFailure) :
      Escapes time (.raised f) f
  | reply {status : Int} {v : Value} {f : Failure} (h : content v = .error f) :
      Escapes time (.reply status v) f
  | described {v : Value} {f : Failure} (h : describedContent v = .error f) :
      Escapes time (.described v) f
  | problem {p : Problem} {f : Failure} (h : content (p.envelope (p.note (.fresh time))) = .error f) :
      Escapes time (.problem p) f
  | invalid {issues : List Issue} {target : Option Text} {f : Failure}
      (h : content ((Problem.invalidRequest (details issues)).envelope
        ⟨time, none, target, .null⟩) = .error f) : Escapes time (.invalid issues target) f

theorem answer_escapes {time : Timestamp} {result : Result} {f : Failure}
    (h : Escapes time result f) (path : Text) (headers : List (Text × Text)) :
    (answer time path headers result).2 = unhandled time := by
  cases h with
  | raised h _ => simp only [answer, h, if_true]
  | reply h => simp only [answer, h, rendered]
  | described h => simp only [answer, h, rendered]
  | problem h => simp only [answer, h, rendered]
  | invalid h => simp only [answer, h, rendered]

theorem not_head_of_answer {m : Method} {path : Text} {e : Endpoint}
    (h : Route.decide m path = .answer e) : m.isHead = false := by
  unfold Route.decide at h
  split at h
  · next e' hfound =>
    have hmethod := List.find?_some hfound
    obtain rfl : e'.method = m := by simpa using hmethod
    cases e' <;> rfl
  · split at h
    · cases h
    · split at h
      · cases h
      · cases h

theorem respond_escapes (a : App) {time : Timestamp} {r : Request} {e : Endpoint} {f : Failure}
    (hroute : Route.decide r.method r.target.path = .answer e)
    (h : Escapes time (a.runEndpoint e (sentBody r)).2 f) :
    (a.respond time r).2 = unhandled time := by
  have hhead := not_head_of_answer hroute
  simp only [respond, respondFully, hroute, hhead, Bool.false_eq_true, if_false]
  exact answer_escapes h _ _

def leaking (f : Failure) : Registry Handler := ⟨[⟨chars "leak", [], fun _ => .fail f⟩]⟩

def leakingApp (f : Failure) : App := ⟨.ready, .lenient, .ofRegistry (leaking f), .ok 500, []⟩

theorem execute_leaking {f : Failure} {w : World} (h : w.registry = leaking f) (policy : Policy)
    (target : Text) : (Dispatch.execute policy target w).1.registry = leaking f := by
  show (Dispatch.executeWithin policy (nestingLimit - 1 + 1) target w).1.registry = _
  rw [Dispatch.executeWithin]
  cases he : enter policy w.registry target with | mk entry rs =>
  cases entry with
  | refused o => exact h
  | admitted c handler =>
    obtain ⟨t, ht, rfl⟩ := enter_admitted he
    rw [h] at ht
    obtain rfl := List.mem_singleton.mp (mem_of_lookup ht).1
    exact h

theorem leaking_alike {f f' : Failure} (hf : f.ordinary = true) (hf' : f'.ordinary = true)
    (policy : Policy) {w w' : World} (h : w.registry = leaking f) (h' : w'.registry = leaking f') :
    w.Alike policy w' := by
  intro name
  rw [h, h']
  by_cases hname : chars "leak" = name
  · subst hname
    exact .some fun args => EndsAlike.failed hf hf'
  · have hnone : ∀ g, (leaking g).lookup name = none := by
      intro g
      simp [Registry.lookup, leaking, hname]
    rw [hnone, hnone]
    exact .none

theorem leaking_unwinds {f f' : Failure} (hf : f.ordinary = true) (hf' : f'.ordinary = true)
    (policy : Policy) :
    Unwinds policy (fun w w' => w.registry = leaking f ∧ w'.registry = leaking f') where
  alike h := leaking_alike hf hf' policy h.1 h.2
  listing := by
    rintro w w' ⟨h, h'⟩
    rw [h, h']
    rfl
  notes h _ := h
  executes h target := ⟨execute_leaking h.1 policy target, execute_leaking h.2 policy target⟩

theorem basic_ne_problem (kind message : Text) (p : Problem) :
    Failure.basic kind message ≠ p.toFailure := by
  intro h
  have horigin : ([] : Text) = chars "jobrunner.core.errors." := congrArg Failure.origin h
  exact absurd horigin (by decide)

def brokenApp (f : Failure) : App := ⟨.broken f, .lenient, .ofRegistry .empty, .ok 500, []⟩

def secret : Failure := .basic (chars "ValueError") (chars "secret")

def otherSecret : Failure := .basic (chars "KeyError") (chars "other")

def secretProblem : Failure :=
  (Problem.general (chars "hidden") (chars "HIDDEN") .validation .critical 418).toFailure

def listRequest : Request :=
  ⟨.get, ⟨chars "http", chars "test", none, Route.tasksPath, []⟩, [], none⟩

end Http.App

end Callboard
