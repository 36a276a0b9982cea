import Callboard.Http.App
import Callboard.Proofs.Http.Content
import Callboard.Proofs.Text.Span

/-!
# Checks of bodies

Whatever is wrong with a body that is sent to be run, the issues are shown without
surrogates, since they say nothing of the values that they are about. A body that passes
submits a target without surrogates, and the target that is run is that one without the
blanks around it.
-/

set_option autoImplicit false

namespace Callboard

open Text

structure Issue.Clear (i : Issue) : Prop where
  location : ∀ t ∈ i.location, Sendable t
  message : Sendable i.complaint.message

namespace Checked

variable {α β : Type}

def Clear (x : Checked α) : Prop := ∀ issues, x = .error issues → ∀ i ∈ issues, i.Clear

theorem clear_ok (a : α) : Clear (.ok a) := fun _ h => by cases h

theorem clear_refuse (v : Value) {c : Complaint} (h : Sendable c.message) :
    Clear (refuse v c : Checked α) := by
  intro issues hissues i hi
  obtain rfl := Except.error.inj hissues
  obtain rfl := List.mem_singleton.mp hi
  exact ⟨by simp, h⟩

theorem Clear.inside {x : Checked α} (h : x.Clear) {part : Text} (hp : Sendable part) :
    (x.inside part).Clear := by
  cases x with
  | ok a => exact clear_ok a
  | error issues =>
    intro issues' hissues i hi
    obtain rfl := Except.error.inj hissues
    obtain ⟨j, hj, rfl⟩ := List.mem_map.mp hi
    obtain ⟨hlocation, hmessage⟩ := h issues rfl j hj
    refine ⟨fun t ht => ?_, hmessage⟩
    rcases List.mem_cons.mp ht with rfl | ht
    · exact hp
    · exact hlocation t ht

theorem Clear.map {x : Checked α} (h : x.Clear) (f : α → β) : Clear (x.map f) := by
  cases x with
  | ok a => exact clear_ok (f a)
  | error issues =>
    intro issues' hissues
    obtain rfl := Except.error.inj hissues
    exact h issues rfl

end Checked

namespace Validation

theorem readable_eq_ok {t u : Text} (h : readable t = .ok u) : t = u ∧ Sendable u := by
  unfold readable at h
  split at h
  · cases h
  · next ht =>
    obtain rfl := Except.ok.inj h
    exact ⟨rfl, Bool.eq_false_iff.mpr ht⟩

end Validation

namespace RunRequest

theorem asTarget_error {v : Value} {c : Complaint} (h : asTarget v = .error c) :
    Sendable c.message := by
  unfold asTarget at h
  split at h
  · next hv =>
    unfold Validation.asText at hv
    split at hv
    · cases hv
    · cases hv
      cases h
      decide
  split at h
  · next hr =>
    unfold Validation.readable at hr
    split at hr
    · cases hr
      cases h
      decide
    · cases hr
  split at h
  · cases h
    decide
  · cases h

theorem asTarget_ok {v : Value} {t : Text} (h : asTarget v = .ok t) :
    v = .text t ∧ Sendable t := by
  unfold asTarget at h
  split at h
  · cases h
  next u hv =>
  split at h
  · cases h
  next u' hr =>
  split at h
  · cases h
  obtain rfl := Except.ok.inj h
  obtain ⟨rfl, hclear⟩ := Validation.readable_eq_ok hr
  unfold Validation.asText at hv
  split at hv
  · obtain rfl := Except.ok.inj hv
    exact ⟨rfl, hclear⟩
  · cases hv

variable (n : Int)

theorem checkStripped_clear (v : Value) (t : Text) : (checkStripped (.ok n) v t).Clear := by
  unfold checkStripped
  split
  · exact Checked.clear_refuse v (by decide)
  · simp only [limitFor]
    split
    · refine Checked.clear_refuse v ?_
      have hlimit := sendable_signedDecimal n
      have hfront : Sendable (chars "Value error, ") := by decide
      have hwords : Sendable (chars "invoke_target longer than ") := by decide
      have hback : Sendable (chars " characters") := by decide
      simp only [Complaint.message, sendable_append, hfront, hwords, hlimit, hback, and_self]
    · exact Checked.clear_ok t

theorem checkTarget_clear (v : Value) : (checkTarget (.ok n) v).Clear := by
  unfold checkTarget
  split
  · next c hc => exact Checked.clear_refuse v (asTarget_error hc)
  · exact checkStripped_clear n v _

theorem checkTarget_ok {v : Value} {t : Text} (h : checkTarget (.ok n) v = .ok t) :
    ∃ u, v = .text u ∧ Sendable u ∧ t = strip u := by
  unfold checkTarget at h
  split at h
  · cases h
  next u hu =>
  obtain ⟨hv, hclear⟩ := asTarget_ok hu
  refine ⟨u, hv, hclear, ?_⟩
  unfold checkStripped at h
  split at h
  · cases h
  simp only [limitFor] at h
  split at h
  · cases h
  · exact (Except.ok.inj h).symm

theorem ofFields_clear (fields : List (Text × Value)) : (ofFields (.ok n) fields).Clear := by
  unfold ofFields Validation.required
  apply Checked.Clear.map
  split
  · exact (Checked.clear_refuse _ (by decide)).inside (by decide)
  · exact (checkTarget_clear n _).inside (by decide)

theorem ofFields_ok {fields : List (Text × Value)} {r : RunRequest}
    (h : ofFields (.ok n) fields = .ok r) :
    ∃ u, field? targetKey fields = some (.text u) ∧ Sendable u ∧ r.target = strip u := by
  unfold ofFields Validation.required at h
  split at h
  · cases h
  next v hv =>
  cases ht : checkTarget (.ok n) v with
  | error issues =>
    rw [ht] at h
    cases h
  | ok t =>
    rw [ht] at h
    obtain rfl := Except.ok.inj h
    obtain ⟨u, rfl, hclear, rfl⟩ := checkTarget_ok n ht
    exact ⟨u, hv, hclear, rfl⟩

end RunRequest

namespace Http

namespace App

theorem checkBody_clear (n : Int) (v : Value) : (checkBody (.ok n) v).Clear := by
  unfold checkBody checkFields
  apply Checked.Clear.inside _ (by decide)
  split
  · exact RunRequest.ofFields_clear n _
  · exact Checked.clear_refuse v (by decide)

theorem checkBody_ok {n : Int} {v : Value} {r : RunRequest} (h : checkBody (.ok n) v = .ok r) :
    ∃ u, submittedTarget v = some u ∧ Sendable u ∧ r.target = strip u := by
  unfold checkBody checkFields at h
  cases hfields : v.fields? with
  | none =>
    rw [hfields] at h
    cases h
  | some fields =>
    rw [hfields] at h
    cases hr : RunRequest.ofFields (.ok n) fields with
    | error issues =>
      simp only [hr] at h
      cases h
    | ok r' =>
      simp only [hr] at h
      obtain rfl := Except.ok.inj h
      obtain ⟨u, hu, hclear, htarget⟩ := RunRequest.ofFields_ok n hr
      refine ⟨u, ?_, hclear, htarget⟩
      simp only [submittedTarget, hfields, Option.bind_some, hu]

end App

end Http

end Callboard
