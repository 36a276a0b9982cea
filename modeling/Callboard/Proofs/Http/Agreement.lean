import Callboard.Proofs.Dispatch.Course
import Callboard.Proofs.Http.Run

/-!
# What is run is what was sent

The check of a body and the dispatcher both look at a target without the blanks around it.
So a target that passes the check is executed once, the report is that of its outcome, and
executing it with its blanks comes to the same. A target that does not pass is shown as it
was sent, with the one thing that is wrong with it, and nothing is executed.
-/

set_option autoImplicit false

namespace Callboard

open Text

theorem Invocation.parse?_strip (t : Text) : parse? (strip t) = parse? t := by
  rw [parse?, parse?, strip_strip]

namespace RunRequest

def Fits (n : Int) (t : Text) : Prop := 1 ≤ t.length ∧ (t.length : Int) ≤ n

theorem checkStripped_fits {n : Int} {t : Text} (h : Fits n t) (v : Value) :
    checkStripped (.ok n) v t = .ok t := by
  have hne : t ≠ [] := List.length_pos_iff.mp h.1
  have hlength : ¬ n < t.length := Int.not_lt.mpr h.2
  simp only [checkStripped, List.isEmpty_iff, hne, limitFor, hlength, if_false]

theorem checkStripped_unfit {n : Int} {t : Text} (h : ¬ Fits n t) (v : Value) :
    ∃ c, checkStripped (.ok n) v t = .refuse v c := by
  unfold checkStripped
  split
  · exact ⟨_, rfl⟩
  next hne =>
  have hpos : 1 ≤ t.length := List.length_pos_iff.mpr fun ht => hne (by rw [ht]; rfl)
  have hlength : n < t.length := Int.not_le.mp fun hle => h ⟨hpos, hle⟩
  simp only [limitFor, hlength, if_true]
  exact ⟨_, rfl⟩

theorem asTarget_text {s : Text} (hs : Sendable s) (hne : s ≠ []) :
    asTarget (.text s) = .ok s := by
  have hclear : s.any isSurrogate = false := hs
  simp [asTarget, Validation.asText, Validation.readable, hclear, hne]

section
variable {n : Int} {s : Text} (hs : Sendable s)
include hs

theorem checkTarget_fits (h : Fits n (strip s)) :
    checkTarget (.ok n) (.text s) = .ok (strip s) := by
  have hne : s ≠ [] := by
    rintro rfl
    exact absurd h.1 (by decide)
  simp only [checkTarget, asTarget_text hs hne, checkStripped_fits h]

theorem checkTarget_unfit (h : ¬ Fits n (strip s)) :
    ∃ c, checkTarget (.ok n) (.text s) = .refuse (.text s) c := by
  by_cases hne : s = []
  · subst hne
    exact ⟨_, rfl⟩
  · simp only [checkTarget, asTarget_text hs hne]
    exact checkStripped_unfit h _

end

end RunRequest

namespace Http

namespace App

open RunRequest

theorem submittedTarget_eq_some {v : Value} {s : Text} (h : submittedTarget v = some s) :
    ∃ fields, v.fields? = some fields ∧ field? targetKey fields = some (.text s) := by
  unfold submittedTarget at h
  split at h
  · next t ht =>
    obtain rfl := Option.some.inj h
    exact Option.bind_eq_some_iff.mp ht
  · cases h

section
variable {n : Int} {v : Value} {s : Text} (hv : submittedTarget v = some s) (hs : Sendable s)
include hv hs

theorem checkBody_fits (h : Fits n (strip s)) : checkBody (.ok n) v = .ok ⟨strip s⟩ := by
  obtain ⟨fields, hfields, hfield⟩ := submittedTarget_eq_some hv
  simp only [checkBody, checkFields, hfields, ofFields, Validation.required, hfield,
    checkTarget_fits hs h]
  rfl

theorem checkBody_unfit (h : ¬ Fits n (strip s)) :
    ∃ c, checkBody (.ok n) v = .error [⟨[bodyPart, targetKey], c, .text s⟩] := by
  obtain ⟨fields, hfields, hfield⟩ := submittedTarget_eq_some hv
  obtain ⟨c, hc⟩ := checkTarget_unfit hs h
  refine ⟨c, ?_⟩
  simp only [checkBody, checkFields, hfields, ofFields, Validation.required, hfield, hc]
  rfl

end

/-- The target is executed without its blanks, the outcome is reported, its state by a word
that no other state has, and nothing else happens. With its blanks it has the same outcome,
but for the target itself, and leaves the same behind, but for the log. -/
structure Executes (a : App) (time : Timestamp) (r : Request) (s : Text) (w : World) (o : Outcome) :
    Prop where
  run : Dispatch.execute a.policy (strip s) a.world = (w, .outcome o)
  target : o.target = strip s
  unstripped : ∃ w' o', Dispatch.execute a.policy s a.world = (w', .outcome o') ∧
    o = o'.about (strip s) ∧ w'.unlogged = w.unlogged
  response : ∃ body, Carries body (.record [
      (chars "invoke_target", .text (strip s)),
      (chars "success", .bool (decide (o.state = .completed))),
      (chars "task_name", o.taskName.elim .null .text), (chars "state", .text o.state.word),
      (chars "error_code", o.errorCode.elim .null .text)]) ∧
    a.respond time r = (a.inWorld w, .ok ⟨200, a.originHeaders r, body⟩)
  state : ∀ state : State, state.word = o.state.word → state = o.state
  again : ∀ v, submittedTarget v = some o.target → checkBody a.limit v = .ok ⟨o.target⟩

/-- The target is refused: it is shown as it was sent, with one detail about it, and all that
happens is that this is noted. -/
structure RefusesTarget (a : App) (time : Timestamp) (r : Request) (s : Text) (d : Value) : Prop where
  detail : ∃ message kind, d = .list [.record [
    (chars "field", .text (chars "body.invoke_target")), (chars "message", .text message),
    (chars "type", .text kind)]]
  response : ∃ body, Carries body (.record [(chars "error", .record [
      (chars "code", .text (chars "VALIDATION_ERROR")),
      (chars "message", .text (chars "Invalid request data")),
      (chars "category", .text (chars "validation")), (chars "severity", .text (chars "error")),
      (chars "timestamp", .text time.write),
      (chars "context", .record [(chars "task_name", .null), (chars "invoke_target", .text s)]),
      (chars "details", d)])]) ∧
    a.respond time r = (a.emit [invalidRecord d r.target.loggedPath],
      .ok ⟨400, a.originHeaders r, body⟩)

section
variable {a : App} (ha : Serves a) {time : Timestamp} {r : Request} (hr : Runs r) {v : Value}
  (hv : sentBody r = .value v)
include ha

theorem execute_strip (s : Text) : ∃ w o w' o',
    Dispatch.execute a.policy (strip s) a.world = (w, .outcome o) ∧
      Dispatch.execute a.policy s a.world = (w', .outcome o') ∧
      o = o'.about (strip s) ∧ w'.unlogged = w.unlogged := by
  obtain ⟨hunlogged, habout⟩ := Dispatch.executeWithin_about (Invocation.parse?_strip s) a.policy
    (Dispatch.nestingLimit - 1) a.world
  obtain ⟨-, o', ho'⟩ := Dispatch.executeWithin_step
    (Dispatch.executeWithin_contains a.policy (Dispatch.nestingLimit - 1)) ha.ordinary s
  rw [ho'] at habout
  exact ⟨_, o'.about (strip s), _, o', Prod.ext rfl habout, Prod.ext rfl ho', rfl, hunlogged.symm⟩

theorem breach_none (v : Value) : RunRequest.breach? a.limit v = none := by
  obtain ⟨n, hn⟩ := ha.limited
  rw [hn]
  rfl

theorem runBody_passes {q : RunRequest} (h : checkBody a.limit v = .ok q) :
    a.runBody (.value v) = a.runTarget q := by
  rw [runBody, withTasks_ready ha]
  simp only [breach_none ha, h]

theorem runBody_invalid {issues : List Issue} (h : checkBody a.limit v = .error issues) :
    a.runBody (.value v) = (a, .invalid issues (submittedTarget v)) := by
  rw [runBody, withTasks_ready ha]
  simp only [breach_none ha, h]

include hr hv

theorem respond_fits {n : Int} (hn : a.limit = .ok n) {s : Text} (hs : submittedTarget v = some s)
    (hclear : Sendable s) (h : Fits n (strip s)) :
    ∃ w o, Executes a time r s w o := by
  obtain ⟨w, o, w', o', hrun, hunstripped, habout, hunlogged⟩ := execute_strip ha s
  have hstripped : Sendable (strip s) := hclear.of_subset (strip_subset s)
  obtain ⟨body, hdescribed, hcarries⟩ :=
    outcome_described (outcome_clear (Dispatch.nestingLimit - 1) hrun hstripped)
  have htarget : o.target = strip s := by rw [habout]; rfl
  rw [outcomeObject, htarget] at hcarries
  simp only [reportObject, Value.ofText?_eq_elim] at hcarries
  refine ⟨w, o, hrun, htarget, ⟨w', o', hunstripped, habout, hunlogged⟩, ⟨body, hcarries, ?_⟩,
    fun _ => State.word_injective, ?_⟩
  · have hran := runTarget_outcome ha.ready (q := ⟨strip s⟩) hrun
    have hpasses : checkBody a.limit v = .ok ⟨strip s⟩ := by rw [hn, checkBody_fits hs hclear h]
    rw [respond_conclude a time hr, hv, runBody_passes ha hpasses]
    simp only [hran, conclude, answer, hdescribed, rendered, emit_nil]
  · intro v hv
    have hagain : Fits n (strip (strip s)) := by rwa [strip_strip]
    rw [htarget] at hv ⊢
    rw [hn, checkBody_fits hv hstripped hagain, strip_strip]

theorem respond_unfit {n : Int} (hn : a.limit = .ok n) (htime : Sendable time.write) {s : Text}
    (hs : submittedTarget v = some s) (hclear : Sendable s) (h : ¬ Fits n (strip s)) :
    ∃ d, RefusesTarget a time r s d := by
  obtain ⟨c, hc⟩ := checkBody_unfit hs hclear h
  have hissues := checkBody_clear n v _ hc
  obtain ⟨body, hbody⟩ := invalid_carried htime hissues (some s) fun t ht => by
    cases ht
    exact hclear
  refine ⟨_, ⟨c.message, c.code, rfl⟩, body, hbody, ?_⟩
  rw [← hn] at hc
  rw [respond_conclude a time hr, hv, runBody_invalid ha hc, hs]
  simp only [conclude, answer, envelope_invalid, hbody.sent, rendered]
  rfl

end

def submittedIn? : Body → Option Text
  | .value v => submittedTarget v
  | _ => none

theorem submittedIn?_eq_some {b : Body} {t : Text} (h : submittedIn? b = some t) :
    ∃ v, b = .value v ∧ submittedTarget v = some t := by
  cases b with
  | value v => exact ⟨v, rfl, h⟩
  | _ => cases h

end App

end Http

end Callboard
