import Callboard.Proofs.Literal.Opened

/-!
# Where reading stops

A text that is refused is refused at its first token that is out of place. What stands
in front of it can be completed, and with any token of the kind that was due; what
stands there begins with the token that the reason names. Only where too many containers
are open, nothing need be wrong with what stands there.
-/

set_option autoImplicit false

namespace Callboard.Literal

open Text

def Inner {α : Type} (read : Text → Except Stop α) : Prop :=
  ∀ s e, read s = .error e → e.reason ≠ .trailingText

theorem readText_inner {r : Text} {e : Stop} (h : readText (quote :: r) = .error e) :
    e.reason ≠ .trailingText := by
  obtain ⟨-, hdue, -⟩ := readText_error h
  intro hreason
  rw [hreason] at hdue
  cases hdue

theorem readSeparator_inner (closer : CodePoint) : Inner (readSeparator closer) := by
  intro s e h
  obtain ⟨rfl, -⟩ := readSeparator_error h
  exact Reason.noConfusion

section
variable {read : Text → Except Stop (Value × Text)}

theorem readItems_inner (hread : Inner read) (fuel : Nat) : Inner (readItems read fuel) := by
  induction fuel with
  | zero =>
    intro s e h
    cases h
    exact Reason.noConfusion
  | succ fuel ih =>
    intro s e h
    unfold readItems at h
    split at h
    · cases h
    split at h
    · next hv =>
      cases h
      exact hread _ _ hv
    split at h
    · next hsep =>
      cases h
      exact readSeparator_inner _ _ _ hsep
    · cases h
    split at h
    · next hrest =>
      cases h
      exact ih _ _ hrest
    · cases h

theorem readPairs_inner (hread : Inner read) (fuel : Nat) : Inner (readPairs read fuel) := by
  induction fuel with
  | zero =>
    intro s e h
    cases h
    exact Reason.noConfusion
  | succ fuel ih =>
    intro s e h
    unfold readPairs at h
    split at h
    · cases h
    · split at h
      · next hkey =>
        cases h
        exact readText_inner hkey
      split at h
      · split at h
        · next hv =>
          cases h
          exact hread _ _ hv
        split at h
        · next hsep =>
          cases h
          exact readSeparator_inner _ _ _ hsep
        · cases h
        split at h
        · next hrest =>
          cases h
          exact ih _ _ hrest
        · cases h
      · cases h
        exact Reason.noConfusion
    · cases h
      exact Reason.noConfusion

end

theorem readAtom_inner : Inner readAtom := by
  intro s e h
  unfold readAtom at h
  split at h
  · split at h
    · cases h
    · cases h
      exact Reason.noConfusion
  · split at h
    · cases h
      exact Reason.noConfusion
    · dsimp only at h
      split at h
      · split at h
        · cases h
        · cases h
          exact Reason.noConfusion
      · cases h
        exact Reason.noConfusion

theorem readValue_inner (levels : Nat) : Inner (readValue levels) := by
  induction levels with
  | zero =>
    intro s e h
    cases h
    exact Reason.noConfusion
  | succ levels ih =>
    intro s e h
    unfold readValue at h
    split at h
    · cases h
      exact Reason.noConfusion
    · split at h
      · next hitems =>
        cases h
        exact readItems_inner ih _ _ _ hitems
      · cases h
    · split at h
      · next hpairs =>
        cases h
        exact readPairs_inner ih _ _ _ hpairs
      · cases h
    · split at h
      · next htext =>
        cases h
        exact readText_inner htext
      · cases h
    · exact readAtom_inner _ _ h

theorem readWhole_trailing {t : Text} {e : Stop} (h : readWhole t = .error e)
    (hreason : e.reason = .trailingText) : ∃ p v, t = p ++ e.rest ∧ read p = .ok v := by
  unfold readWhole at h
  split at h
  · next hv =>
    cases h
    exact absurd hreason (readValue_inner _ _ _ hv)
  next v rest hv =>
  obtain ⟨a, body, ha, hbody, rfl⟩ := readValue_sound _ _ _ _ hv
  obtain ⟨b, rest, rfl, hb, hrest, -⟩ := exists_blanks rest
  rw [hrest] at h
  split at h
  · cases h
  · cases h
    exact ⟨a ++ (body ++ b), v, by simp, read_eq_ok_iff.mpr ⟨a, body, b, rfl, ha, hbody, hb⟩⟩

/-- The position of a failure: whatever token was due would have been right there, and what
stands there instead is at fault, or it lies too deep. -/
structure Pinpoints (t : Text) (e : DecodeError) : Prop where
  within : e.position ≤ t.length
  viable : Viable (t.take e.position)
  awaits : Awaits (t.take e.position) e.reason.due
  fault : Fault ⟨e.reason, t.drop e.position⟩ ∨
    e.reason = .nestingTooDeep ∧ TooMany (t.take e.position)
  trailing : e.reason = .trailingText → ∃ v, read (t.take e.position) = .ok v
  atEnd : e.reason = .unexpectedEnd → e.position = t.length

theorem read_eq_error {t : Text} {e : DecodeError} (h : read t = .error e) :
    ∃ stop, readWhole t = .error stop ∧ e = ⟨stop.reason, t.length - stop.rest.length⟩ := by
  unfold read at h
  split at h
  · cases h
  · next stop hstop => exact ⟨stop, hstop, (Except.error.inj h).symm⟩

/-- Every text that is refused is refused at its first token that is out of place. -/
theorem read_pinpoints {t : Text} {e : DecodeError} (h : read t = .error e) : Pinpoints t e := by
  obtain ⟨stop, hstop, rfl⟩ := read_eq_error h
  obtain ⟨n, hn, -⟩ := Config.reaches_readWhole t
  have hreading : Reading t (Config.run t n) := run_reading t n
  rw [Config.run, hn, hstop] at hreading
  obtain ⟨p, ht, hawaits, hfault⟩ := hreading
  have hposition : t.length - stop.rest.length = p.length := by
    rw [ht, List.length_append]
    omega
  have htake : t.take p.length = p := by rw [ht, List.take_left]
  have hdrop : t.drop p.length = stop.rest := by rw [ht, List.drop_left]
  constructor
  · exact Nat.sub_le _ _
  · rw [hposition, htake]
    exact hawaits.viable
  · rw [hposition, htake]
    exact hawaits
  · rw [hposition, htake, hdrop]
    exact hfault
  · intro hreason
    obtain ⟨q, v, hq, hv⟩ := readWhole_trailing hstop hreason
    obtain rfl : q = p := List.append_cancel_right (hq.symm.trans ht)
    rw [hposition, htake]
    exact ⟨v, hv⟩
  · intro hreason
    obtain ⟨reason, rest⟩ := stop
    obtain rfl : reason = .unexpectedEnd := hreason
    rcases hfault with hrest | ⟨hdeep, -⟩
    · obtain rfl : rest = [] := hrest
      rfl
    · cases hdeep

def misspeltText : Text := chars "[1, \x7b\"a\": tru]"

theorem read_pinpoints_misspelt :
    read misspeltText = .error ⟨.unknownIdentifier (chars "tru"), 10⟩ ∧
      Pinpoints misspeltText ⟨.unknownIdentifier (chars "tru"), 10⟩ := by
  have h : read misspeltText = .error ⟨.unknownIdentifier (chars "tru"), 10⟩ := by rfl
  exact ⟨h, read_pinpoints h⟩

end Callboard.Literal
