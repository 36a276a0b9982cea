import Callboard.Proofs.Dispatch.Reference
import Callboard.Proofs.Http.Check
import Callboard.Proofs.Http.Envelope
import Callboard.Proofs.Invocation.Shape

/-!
# Answers to bodies that are run

What a client is answered that sends a target to be run. A body that can be read and
does not submit a target with surrogates is answered with a report or refused with the
envelope of an invalid request. The target is shown again in the envelope, and so a target
with surrogates comes to an internal failure. A body that cannot be read is answered in a
form of its own.
-/

set_option autoImplicit false

namespace Callboard.Http

open Text

namespace App

def reportObject (target : Text) (success : Bool) (taskName : Option Text) (state : State)
    (errorCode : Option Text) : Value :=
  .record [(chars "invoke_target", .text target), (chars "success", .bool success),
    (chars "task_name", .ofText? taskName), (chars "state", .text state.word),
    (chars "error_code", .ofText? errorCode)]

/-- A call is successful if it has completed. -/
def outcomeObject (o : Outcome) : Value :=
  reportObject o.target (decide (o.state = .completed)) o.taskName o.state o.errorCode

theorem report_wordy (target : Text) (success : Bool) (taskName : Option Text) (state : State)
    (errorCode : Option Text) :
    Wordy Body.nestingLimit (reportObject target success taskName state errorCode) :=
  .of_keys (n := 961) [chars "invoke_target", chars "success", chars "task_name", chars "state",
    chars "error_code"] rfl (by decide) (by decide)
    (by simp [Wordy.text, Wordy.bool, Wordy.ofText?])

theorem outcome_described {o : Outcome} (h : unencodableIn? (outcomeObject o) = none) :
    ∃ body, describedContent (outcomeObject o) = .ok body ∧ Carries body (outcomeObject o) :=
  (report_wordy _ _ _ _ _).described h

theorem report_clear {o : Outcome} (ht : Sendable o.target)
    (hn : ∀ name ∈ o.taskName, Sendable name) (hc : ∀ code ∈ o.errorCode, Sendable code) :
    unencodableIn? (outcomeObject o) = none := by
  have hstate : Sendable o.state.word := by
    cases o.state <;> decide
  have hsuccess : unencodableIn? (.bool (decide (o.state = .completed))) = none := rfl
  rw [outcomeObject, reportObject, clear_record]
  simp only [List.forall_mem_cons, List.not_mem_nil, false_implies, implies_true, and_true,
    clear_text, clear_ofText?]
  exact ⟨ht, hsuccess, hn, hstate, hc⟩

open Dispatch in
theorem outcome_clear {policy : Policy} (depth : Nat) {target : Text} {w w' : World} {o : Outcome}
    (hrun : executeWithin policy (depth + 1) target w = (w', .outcome o)) (ht : Sendable target) :
    unencodableIn? (outcomeObject o) = none := by
  have hfollows := executeWithin_follows hrun
  cases hp : Invocation.parse? target with
  | none =>
    obtain ⟨rfl, -⟩ := hfollows.unparsed hp
    exact report_clear ht (by simp) (by simp; decide)
  | some inv =>
    obtain ⟨name, raw⟩ := inv
    have hname : Sendable name := ht.of_subset (Invocation.parse?_subset hp)
    have hsettled : ∀ args error, Settles policy raw args error →
        unencodableIn? (outcomeObject o) = none := by
      intro args error hs
      cases hl : w.registry.lookup name with
      | none =>
        obtain ⟨rfl, -⟩ := hfollows.unknown hp hs hl
        exact report_clear ht (by simpa using hname) (by simp; decide)
      | some t =>
        obtain ⟨rs, ss, w₁, result, -, -, -, -, rfl⟩ := hfollows.invoked hp hs hl
        cases result with
        | ok v => exact report_clear ht (by simpa [ended] using hname) (by simp [ended])
        | error f => exact report_clear ht (by simpa [ended] using hname) (by simp [ended]; decide)
    cases hd : Invocation.decode raw with
    | ok args => exact hsettled args none (.decoded hd)
    | error e =>
      cases hpolicy : policy with
      | lenient => exact hsettled [] _ (.leftOut hd hpolicy)
      | strict =>
        obtain ⟨rfl, -⟩ := hfollows.undecodable hp hd hpolicy
        exact report_clear ht (by simpa using hname) (by simp; decide)

def Reports (r : Response) : Prop :=
  r.status = 200 ∧ ∃ target success taskName state errorCode,
    content (reportObject target success taskName state errorCode) = .ok r.body

def Refuses (r : Response) : Prop :=
  r.status = 400 ∧ ∃ timestamp taskName target details,
    content (invalidObject timestamp taskName target details) = .ok r.body

/-- An internal failure, of which the client learns nothing. -/
def Fails (r : Response) : Prop :=
  r.status = 500 ∧ ∃ timestamp taskName target,
    content (internalObject timestamp taskName target) = .ok r.body

def Garbled (b : Body) : Prop :=
  ∃ v t, b = .value v ∧ submittedTarget v = some t ∧ ¬ Sendable t

theorem garbled_value {v : Value} :
    Garbled (.value v) ↔ ∃ t, submittedTarget v = some t ∧ ¬ Sendable t := by
  constructor
  · rintro ⟨v', t, hv, h⟩
    cases hv
    exact ⟨t, h⟩
  · exact fun ⟨t, h⟩ => ⟨v, t, rfl, h⟩

def unreadableText : Text := chars "\x7b\"detail\":\"There was an error parsing the body\"\x7d"

theorem content_unreadable : content (.record
    [(chars "detail", .text (chars "There was an error parsing the body"))]) =
      .ok unreadableText := by
  have hwritten : Json.write Json.compact (.record
      [(chars "detail", .text (chars "There was an error parsing the body"))]) =
        .ok unreadableText := by rfl
  have hclear : unencodable? unreadableText = none := by decide +kernel
  simp only [content, hwritten, hclear]

section
variable {time : Timestamp} (htime : Sendable time.write) (path : Text)
  (headers : List (Text × Text))
include htime

theorem unhandled_ok : ∃ t, content (Problem.internalFailure.envelope (.fresh time)) = .ok t ∧
    unhandled time = .ok ⟨500, [], t⟩ := by
  obtain ⟨t, ht⟩ := (bareObject_wordy _ _ _ _ _ _ _).carried (internal_clear htime)
  have hsent : content (Problem.internalFailure.envelope (.fresh time)) = .ok t := ht.sent
  exact ⟨t, hsent, by rw [unhandled, hsent]; rfl⟩

theorem invalid_carried {issues : List Issue} (hi : ∀ i ∈ issues, i.Clear) (target : Option Text)
    (ht : ∀ t ∈ target, Sendable t) :
    ∃ body, Carries body (invalidObject time.write none target (details issues)) :=
  (invalid_wordy issues _ _ _).carried
    (invalid_clear.mpr ⟨htime, by simp, ht, details_clear hi⟩)

theorem answer_refuses {issues : List Issue} (hi : ∀ i ∈ issues, i.Clear) (target : Option Text)
    (ht : ∀ t ∈ target, Sendable t) :
    ∃ r, (answer time path headers (.invalid issues target)).2 = .ok r ∧ Refuses r := by
  obtain ⟨t, ht⟩ := invalid_carried htime hi target ht
  refine ⟨⟨400, headers, t⟩, ?_, rfl, _, _, _, _, ht.sent⟩
  simp only [answer, envelope_invalid, ht.sent]
  rfl

theorem answer_fails (issues : List Issue) {t : Text} (ht : ¬ Sendable t) :
    ∃ r, (answer time path headers (.invalid issues (some t))).2 = .ok r ∧ Fails r := by
  have hsome : (unencodableIn? (invalidObject time.write none (some t) (details issues))).isSome =
      true := by
    rw [← Option.ne_none_iff_isSome]
    exact fun h => ht ((invalid_clear.mp h).2.2.1 t rfl)
  obtain ⟨f, hf⟩ := (invalid_wordy issues _ _ _).content_error hsome
  obtain ⟨u, hu, hunhandled⟩ := unhandled_ok htime
  refine ⟨⟨500, [], u⟩, ?_, rfl, _, _, _, hu⟩
  simp only [answer, envelope_invalid, hf, rendered]
  exact hunhandled

theorem answer_issues {issues : List Issue} (hi : ∀ i ∈ issues, i.Clear) (v : Value) :
    ∃ r, (answer time path headers (.invalid issues (submittedTarget v))).2 = .ok r ∧
      ((Garbled (.value v) ∧ Fails r) ∨ (¬ Garbled (.value v) ∧ Refuses r)) := by
  by_cases hgarbled : Garbled (.value v)
  · obtain ⟨t, ht, hsurrogate⟩ := garbled_value.mp hgarbled
    obtain ⟨r, hr, hfails⟩ := answer_fails htime path headers issues hsurrogate
    exact ⟨r, by rw [ht, hr], .inl ⟨hgarbled, hfails⟩⟩
  · have hshown : ∀ t ∈ submittedTarget v, Sendable t := by
      intro t ht
      by_contra hsurrogate
      exact hgarbled (garbled_value.mpr ⟨t, ht, hsurrogate⟩)
    obtain ⟨r, hr, hrefuses⟩ := answer_refuses htime path headers hi _ hshown
    exact ⟨r, hr, .inr ⟨hgarbled, hrefuses⟩⟩

end

structure Runs (r : Request) : Prop where
  method : r.method = .post
  path : r.target.path = Route.runPath
  json : (r.header (chars "content-type")).any Body.saysJson = true

/-- A ready interface whose handlers fail in ordinary ways only, with a limit that can be
read. -/
structure Serves (a : App) : Prop where
  ready : a.access = .ready
  ordinary : a.world.Ordinary
  limited : ∃ n, a.limit = .ok n

def sentBody (r : Request) : Body := Body.read (r.header (chars "content-type")) r.body

def inWorld (a : App) (w : World) : App := ⟨a.access, a.policy, w, a.limit, a.origins⟩

theorem emit_nil (a : App) : a.emit [] = a := by
  rw [emit, World.emit_nil]

theorem respond_endpoint (a : App) (time : Timestamp) {r : Request} {e : Endpoint}
    (hroute : Route.decide r.method r.target.path = .answer e) (hhead : r.method.isHead = false) :
    a.respond time r =
      conclude time r.target.loggedPath (a.originHeaders r) (a.runEndpoint e (sentBody r)) := by
  simp only [respond, respondFully, hroute, hhead, Bool.false_eq_true, if_false]
  rfl

theorem respond_conclude (a : App) (time : Timestamp) {r : Request} (hr : Runs r) :
    a.respond time r =
      conclude time r.target.loggedPath (a.originHeaders r) (a.runBody (sentBody r)) := by
  apply respond_endpoint (e := .run)
  · rw [hr.method, hr.path]
    decide
  · rw [hr.method]
    decide

theorem respond_run (a : App) (time : Timestamp) {r : Request} (hr : Runs r) :
    (a.respond time r).2 =
      (answer time r.target.loggedPath (a.originHeaders r) (a.runBody (sentBody r)).2).2 := by
  rw [respond_conclude a time hr]
  rfl

theorem withTasks_of_ready {a : App} (h : a.access = .ready) (next : App → App × Result) :
    a.withTasks next = next a := by
  simp only [withTasks, opened, h]

theorem reading_of_ready {a : App} (h : a.access = .ready) (look : Registry Handler → Result) :
    a.reading look = (a, look a.world.registry) := by
  have hfault : a.fault? = none := by simp only [fault?, h]
  rw [reading, withTasks_of_ready h]
  simp only [hfault]

theorem runTarget_outcome {a : App} (h : a.access = .ready) {q : RunRequest} {w : World}
    {o : Outcome} (hrun : Dispatch.execute a.policy q.target a.world = (w, .outcome o)) :
    a.runTarget q = (a.inWorld w, .described (outcomeObject o)) := by
  have hfault : a.fault? = none := by simp only [fault?, h]
  rw [runTarget, hfault]
  simp only
  rw [hrun]
  rfl

section
variable {a : App} (ha : Serves a)
include ha

theorem withTasks_ready (next : App → App × Result) : a.withTasks next = next a :=
  withTasks_of_ready ha.ready next

theorem answer_runTarget (time : Timestamp) (path : Text) (headers : List (Text × Text))
    {q : RunRequest} (hq : Sendable q.target) :
    ∃ r, (answer time path headers (a.runTarget q).2).2 = .ok r ∧ Reports r := by
  obtain ⟨-, o, ho⟩ := Dispatch.executeWithin_step
    (Dispatch.executeWithin_contains a.policy (Dispatch.nestingLimit - 1)) ha.ordinary q.target
  have hrun : Dispatch.execute a.policy q.target a.world =
      ((Dispatch.execute a.policy q.target a.world).1, .outcome o) := Prod.ext rfl ho
  have hclear := outcome_clear (Dispatch.nestingLimit - 1) hrun hq
  obtain ⟨t, hdescribed, hcarries⟩ := outcome_described hclear
  refine ⟨⟨200, headers, t⟩, ?_, rfl, _, _, _, _, _, hcarries.sent⟩
  rw [runTarget_outcome ha.ready hrun]
  simp only [answer, hdescribed]
  rfl

theorem answer_value {time : Timestamp} (htime : Sendable time.write) (path : Text)
    (headers : List (Text × Text)) (v : Value) :
    ∃ r, (answer time path headers (a.runBody (.value v)).2).2 = .ok r ∧
      ((Garbled (.value v) ∧ Fails r) ∨ (¬ Garbled (.value v) ∧ (Reports r ∨ Refuses r))) := by
  obtain ⟨n, hn⟩ := ha.limited
  have hbreach : RunRequest.breach? a.limit v = none := by
    rw [hn]
    rfl
  rw [runBody, withTasks_ready ha]
  simp only [hbreach]
  rw [hn]
  cases hcheck : checkBody (.ok n) v with
  | error issues =>
    obtain ⟨r, hr, ⟨hgarbled, hfails⟩ | ⟨hgarbled, hrefuses⟩⟩ :=
      answer_issues htime path headers (checkBody_clear n v issues hcheck) v
    · exact ⟨r, hr, .inl ⟨hgarbled, hfails⟩⟩
    · exact ⟨r, hr, .inr ⟨hgarbled, .inr hrefuses⟩⟩
  | ok q =>
    obtain ⟨u, hu, hclear, htarget⟩ := checkBody_ok hcheck
    have hgarbled : ¬ Garbled (.value v) := by
      rw [garbled_value]
      rintro ⟨t, ht, hsurrogate⟩
      rw [hu] at ht
      cases ht
      exact hsurrogate hclear
    have hq : Sendable q.target := by
      rw [htarget]
      exact hclear.of_subset (strip_subset u)
    obtain ⟨r, hr, hreports⟩ := answer_runTarget ha time path headers hq
    exact ⟨r, hr, .inr ⟨hgarbled, .inl hreports⟩⟩

end

/-- The answer to a body: a report or the envelope of an invalid request, exactly if the body
can be read and submits no target with surrogates. -/
structure Answers (body : Body) (r : Response) : Prop where
  proper : Reports r ∨ Refuses r ↔ body ≠ .unreadable ∧ ¬ Garbled body
  garbled : Garbled body → Fails r
  unreadable : body = .unreadable → r.status = 400 ∧ r.body = unreadableText

theorem answers_of_refuses {body : Body} {r : Response} (hr : Refuses r)
    (hreadable : body ≠ .unreadable) (hgarbled : ¬ Garbled body) : Answers body r :=
  ⟨⟨fun _ => ⟨hreadable, hgarbled⟩, fun _ => .inr hr⟩, fun h => absurd h hgarbled,
    fun h => absurd h hreadable⟩

theorem answers_of_fails {body : Body} {r : Response} (hr : Fails r) (hgarbled : Garbled body) :
    Answers body r := by
  have hstatus : r.status ≠ 200 ∧ r.status ≠ 400 := by
    rw [hr.1]
    decide
  refine ⟨⟨?_, fun h => absurd hgarbled h.2⟩, fun _ => hr, ?_⟩
  · rintro (h | h)
    · exact absurd h.1 hstatus.1
    · exact absurd h.1 hstatus.2
  · rintro rfl
    obtain ⟨v, t, hv, -⟩ := hgarbled
    cases hv

theorem answers_unreadable (headers : List (Text × Text)) :
    Answers .unreadable ⟨400, headers, unreadableText⟩ := by
  refine ⟨⟨?_, fun h => absurd rfl h.1⟩, ?_, fun _ => ⟨rfl, rfl⟩⟩
  · rintro (h | ⟨-, _, _, _, _, h⟩)
    · exact absurd h.1 (show (400 : Int) ≠ 200 by decide)
    · -- the object of a problem begins with another key
      obtain ⟨rest, hrest⟩ := problemObject_starts h
      cases hrest
  · rintro ⟨v, t, hv, -⟩
    cases hv

theorem not_garbled {body : Body} (h : ∀ v, body ≠ .value v) : ¬ Garbled body := by
  rintro ⟨v, t, hv, -⟩
  exact h v hv

theorem answers_issue {time : Timestamp} (htime : Sendable time.write) (path : Text)
    (headers : List (Text × Text)) {body : Body} (hbody : ∀ v, body ≠ .value v)
    (hreadable : body ≠ .unreadable) {i : Issue} (hi : i.Clear) :
    ∃ r, (answer time path headers (.invalid [i] none)).2 = .ok r ∧ Answers body r := by
  have hissues : ∀ j ∈ [i], j.Clear := fun j hj => List.mem_singleton.mp hj ▸ hi
  obtain ⟨r, hr, hrefuses⟩ :=
    answer_refuses htime path headers hissues none (fun t ht => by cases ht)
  exact ⟨r, hr, answers_of_refuses hrefuses hreadable (not_garbled hbody)⟩

/-- Every request to run a target is answered, in the one way or the other. -/
theorem run_answered {a : App} (ha : Serves a) {time : Timestamp} (htime : Sendable time.write)
    {r : Request} (hr : Runs r) :
    ∃ answered, (a.respond time r).2 = .ok answered ∧ Answers (sentBody r) answered := by
  rw [respond_run a time hr]
  generalize r.target.loggedPath = path
  generalize a.originHeaders r = headers
  cases sentBody r with
  | malformed position =>
    refine answers_issue htime path headers (fun v h => by cases h) (fun h => by cases h) ?_
    refine ⟨fun t ht => ?_, show Sendable Complaint.malformedJson.message by decide⟩
    rcases List.mem_cons.mp ht with rfl | ht
    · decide
    · obtain rfl := List.mem_singleton.mp ht
      exact sendable_decimal position
  | unreadable =>
    refine ⟨⟨400, headers, unreadableText⟩, ?_, answers_unreadable headers⟩
    simp only [runBody, answer, content_unreadable, rendered]
  | absent =>
    rw [runBody, withTasks_ready ha]
    exact answers_issue htime path headers (fun v h => by cases h) (fun h => by cases h)
      ⟨by decide, by decide⟩
  | foreign =>
    rw [runBody, withTasks_ready ha]
    exact answers_issue htime path headers (fun v h => by cases h) (fun h => by cases h)
      ⟨by decide, by decide⟩
  | value v =>
    obtain ⟨answered, hanswered, ⟨hgarbled, hfails⟩ | ⟨hgarbled, hproper⟩⟩ :=
      answer_value ha htime path headers v
    · exact ⟨answered, hanswered, answers_of_fails hfails hgarbled⟩
    · refine ⟨answered, hanswered, ⟨fun _ => ⟨?_, hgarbled⟩, fun _ => hproper⟩,
        fun h => absurd h hgarbled, ?_⟩
      · rintro ⟨⟩
      · rintro ⟨⟩

def targetRequest (written : Text) : Request :=
  ⟨.post, ⟨chars "http", chars "test", none, Route.runPath, []⟩,
    [(chars "content-type", chars "application/json")],
    some (utf8 (chars "\x7b\"invoke_target\": \"" ++ written ++ chars "\"\x7d"))⟩

theorem targetRequest_runs (written : Text) : Runs (targetRequest written) :=
  ⟨rfl, rfl, show (some (chars "application/json")).any Body.saysJson = true by decide⟩

def garbledRequest : Request :=
  ⟨.post, ⟨chars "http", chars "test", none, Route.runPath, []⟩,
    [(chars "content-type", chars "application/json")],
    some (utf8 (chars "\x7b\"invoke_target\": \"\\ud800\"\x7d"))⟩

def builtinApp : App :=
  ⟨.ready, .lenient, .ofRegistry Builtin.registry.1, .ok 500, []⟩

theorem garbledRequest_garbled : Garbled (sentBody garbledRequest) := by
  have h : (match sentBody garbledRequest with
      | .value v => submittedTarget v
      | _ => none) = some [0xD800] := by decide +kernel
  split at h
  · next v hv => exact ⟨v, _, hv, h, by decide⟩
  · cases h

theorem builtinApp_serves : Serves builtinApp := ⟨rfl, Builtin.registry_ordinary, 500, rfl⟩

theorem garbledRequest_runs : Runs garbledRequest := ⟨rfl, rfl, by decide⟩

theorem run_answered_garbled :
    Serves builtinApp ∧ Runs garbledRequest ∧ Garbled (sentBody garbledRequest) ∧
      ∃ answered, (builtinApp.respond (.reading []) garbledRequest).2 = .ok answered ∧
        Fails answered ∧ ¬ (Reports answered ∨ Refuses answered) := by
  have htime : Sendable (Timestamp.reading []).write := by decide
  obtain ⟨answered, hanswered, hproper, hfails, -⟩ :=
    run_answered builtinApp_serves htime garbledRequest_runs
  exact ⟨builtinApp_serves, garbledRequest_runs, garbledRequest_garbled, answered, hanswered,
    hfails garbledRequest_garbled, fun h => (hproper.mp h).2 garbledRequest_garbled⟩

/-- So not every body is answered with a report or the envelope of an invalid request. -/
theorem run_not_proper : ¬ ∀ (a : App) (time : Timestamp) (r : Request), Serves a →
    Sendable time.write → Runs r →
      ∃ answered, (a.respond time r).2 = .ok answered ∧ (Reports answered ∨ Refuses answered) := by
  intro h
  have htime : Sendable (Timestamp.reading []).write := by decide
  obtain ⟨answered, hanswered, hproper⟩ :=
    h _ _ _ builtinApp_serves htime garbledRequest_runs
  rw [respond_run _ _ garbledRequest_runs] at hanswered
  obtain ⟨v, t, hv, -⟩ := garbledRequest_garbled
  have hbody : Garbled (.value v) := hv ▸ garbledRequest_garbled
  rw [hv] at hanswered
  obtain ⟨r, hr, ⟨-, hfails⟩ | ⟨hclear, -⟩⟩ := answer_value builtinApp_serves htime
    garbledRequest.target.loggedPath (builtinApp.originHeaders garbledRequest) v
  · rw [hanswered] at hr
    obtain rfl := Except.ok.inj hr
    exact ((answers_of_fails hfails hbody).proper.mp hproper).2 hbody
  · exact hclear hbody

end App

end Callboard.Http
