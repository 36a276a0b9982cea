import Callboard.Http.App
import Callboard.Proofs.Http.Check

/-!
# Objects that clients get

What is sent to clients, member by member. A problem is sent with texts only, apart from the
details of an invalid request. What can keep it from being sent is the time, a text of the
context or one of the details, and issues without surrogates have none there.
-/

set_option autoImplicit false

namespace Callboard.Http

open Text

namespace App

def problemKeys : List Text :=
  [chars "code", chars "message", chars "category", chars "severity", chars "timestamp",
    chars "context"]

def problemObject (code message category severity timestamp : Text)
    (taskName target : Option Text) (more : List (Text × Value)) : Value :=
  .record [(chars "error", .record ([
    (chars "code", .text code), (chars "message", .text message),
    (chars "category", .text category), (chars "severity", .text severity),
    (chars "timestamp", .text timestamp),
    (chars "context", .record [(chars "task_name", .ofText? taskName),
      (chars "invoke_target", .ofText? target)])] ++ more))]

def invalidObject (timestamp : Text) (taskName target : Option Text) (details : Value) : Value :=
  problemObject (chars "VALIDATION_ERROR") (chars "Invalid request data") (chars "validation")
    (chars "error") timestamp taskName target [(chars "details", details)]

def internalObject (timestamp : Text) (taskName target : Option Text) : Value :=
  problemObject (chars "INTERNAL_ERROR") (chars "An unexpected error occurred") (chars "internal")
    (chars "critical") timestamp taskName target []

def absenceObject (timestamp name : Text) : Value :=
  problemObject (chars "TASK_NOT_FOUND") (chars "Task '" ++ name ++ chars "' does not exist")
    (chars "resource_not_found") (chars "error") timestamp (some name) none []

theorem envelope_invalid (d : Value) (c : Context) : (Problem.invalidRequest d).envelope c =
    invalidObject c.timestamp.write c.taskName c.invokeTarget d := rfl

theorem code_sendable (c : Complaint) : Sendable c.code := by
  cases c <;> (simp only [Complaint.code]; decide)

theorem details_wordy {n : Nat} (issues : List Issue) : Wordy (n + 2) (details issues) := by
  refine .list fun v hv => ?_
  obtain ⟨i, -, rfl⟩ := List.mem_map.mp hv
  exact .of_keys [chars "field", chars "message", chars "type"] rfl (by decide) (by decide)
    (by simp [Wordy.text])

theorem detail_clear {i : Issue} (h : i.Clear) : unencodableIn? (detail i) = none := by
  have hlocation : Sendable (join [dot] i.location) := by
    rw [Sendable, any_join _ (by decide), List.any_eq_false]
    exact fun t ht => Bool.eq_false_iff.mp (h.location t ht)
  rw [detail, clear_record]
  simp [clear_text, hlocation, h.message, code_sendable]

theorem details_clear {issues : List Issue} (h : ∀ i ∈ issues, i.Clear) :
    unencodableIn? (details issues) = none := by
  rw [details, clear_list]
  intro v hv
  obtain ⟨i, hi, rfl⟩ := List.mem_map.mp hv
  exact detail_clear (h i hi)

theorem problemObject_wordy {n : Nat} (code message category severity timestamp : Text)
    (taskName target : Option Text) {more : List (Text × Value)}
    (hn : (problemKeys ++ more.map Prod.fst).Nodup)
    (hmore : ∀ f ∈ more, Sendable f.1 ∧ Wordy (n + 2) f.2) : Wordy (n + 4)
      (problemObject code message category severity timestamp taskName target more) := by
  have hkeys : ∀ k ∈ problemKeys, Sendable k := by decide
  have hcontext : Wordy (n + 2) (.record [(chars "task_name", .ofText? taskName),
      (chars "invoke_target", .ofText? target)]) :=
    .of_keys [chars "task_name", chars "invoke_target"] rfl (by decide) (by decide)
      (by simp [Wordy.ofText?])
  refine .of_keys [chars "error"] rfl (by decide) (by decide) fun v hv => ?_
  obtain rfl := List.mem_singleton.mp hv
  refine .of_keys (problemKeys ++ more.map Prod.fst) (by simp [problemKeys]) hn ?_ ?_
  · intro k hk
    rcases List.mem_append.mp hk with hk | hk
    · exact hkeys k hk
    · obtain ⟨f, hf, rfl⟩ := List.mem_map.mp hk
      exact (hmore f hf).1
  · intro v hv
    rw [List.map_append] at hv
    rcases List.mem_append.mp hv with hv | hv
    · simp only [List.map_cons, List.map_nil, List.mem_cons, List.not_mem_nil, or_false] at hv
      rcases hv with rfl | rfl | rfl | rfl | rfl | rfl
      case inr.inr.inr.inr.inr => exact hcontext
      all_goals exact .text _
    · obtain ⟨f, hf, rfl⟩ := List.mem_map.mp hv
      exact (hmore f hf).2

theorem problemObject_clear {code message category severity timestamp : Text}
    {taskName target : Option Text} {more : List (Text × Value)} :
    unencodableIn? (problemObject code message category severity timestamp taskName target more) =
        none ↔
      (Sendable code ∧ Sendable message ∧ Sendable category ∧ Sendable severity) ∧
        Sendable timestamp ∧ (∀ t ∈ taskName, Sendable t) ∧ (∀ t ∈ target, Sendable t) ∧
          ∀ f ∈ more, unencodableIn? f.2 = none := by
  simp only [problemObject, clear_record, clear_text, clear_ofText?, List.forall_mem_append,
    List.forall_mem_cons, List.not_mem_nil, false_implies, implies_true, and_true, and_assoc]

theorem bareObject_wordy (code message category severity timestamp : Text)
    (taskName target : Option Text) : Wordy Body.nestingLimit
      (problemObject code message category severity timestamp taskName target []) :=
  problemObject_wordy (n := 958) _ _ _ _ _ _ _ (by decide) fun f hf => absurd hf List.not_mem_nil

theorem invalid_wordy (issues : List Issue) (timestamp : Text) (taskName target : Option Text) :
    Wordy Body.nestingLimit (invalidObject timestamp taskName target (details issues)) := by
  have hkeys : (problemKeys ++ [chars "details"]).Nodup := by decide
  refine problemObject_wordy (n := 958) _ _ _ _ _ _ _ hkeys fun f hf => ?_
  obtain rfl := List.mem_singleton.mp hf
  exact ⟨show Sendable (chars "details") by decide, details_wordy issues⟩

theorem invalid_clear {timestamp : Text} {taskName target : Option Text} {d : Value} :
    unencodableIn? (invalidObject timestamp taskName target d) = none ↔
      Sendable timestamp ∧ (∀ t ∈ taskName, Sendable t) ∧ (∀ t ∈ target, Sendable t) ∧
        unencodableIn? d = none := by
  rw [invalidObject, problemObject_clear, List.forall_mem_singleton]
  exact and_iff_right (by decide)

theorem internal_clear {timestamp : Text} (htime : Sendable timestamp) :
    unencodableIn? (internalObject timestamp none none) = none := by
  rw [internalObject, problemObject_clear]
  exact ⟨by decide, htime, by simp, by simp, by simp⟩

theorem absence_clear {timestamp name : Text} (htime : Sendable timestamp)
    (hname : Sendable name) : unencodableIn? (absenceObject timestamp name) = none := by
  have hmessage : Sendable (chars "Task '" ++ name ++ chars "' does not exist") :=
    sendable_append.mpr ⟨sendable_append.mpr ⟨by decide, hname⟩, by decide⟩
  rw [absenceObject, problemObject_clear]
  exact ⟨⟨by decide, hmessage, by decide, by decide⟩, htime, by simpa using hname, by simp, by simp⟩

theorem problemObject_starts {code message category severity timestamp : Text}
    {taskName target : Option Text} {more : List (Text × Value)} {t : Text}
    (h : content (problemObject code message category severity timestamp taskName target more) =
      .ok t) : ∃ rest, t = chars "\x7b\"error\":" ++ rest := by
  unfold content at h
  split at h
  · cases h
  next u hu =>
  split at h
  · obtain rfl := Except.ok.inj h
    rw [problemObject, Value.record, List.map_cons, Json.write, Json.writeEntries] at hu
    simp only [Json.key, List.map_nil, Json.writeEntries] at hu
    split at hu
    · cases hu
    next ts hts =>
    obtain rfl := Except.ok.inj hu
    split at hts
    · cases hts
    next inner _ =>
    obtain rfl := Except.ok.inj hts
    exact ⟨inner ++ [closeBrace], by rw [← List.append_assoc]; rfl⟩
  · cases h

end App

end Callboard.Http
