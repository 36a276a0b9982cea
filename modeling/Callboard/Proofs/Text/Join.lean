import Callboard.Text.Basic

/-!
# Joined texts

What stands in texts that are joined stands in one of them or in the separator.
-/

set_option autoImplicit false

namespace Callboard.Text

theorem join_cons (sep t : Text) {ts : List Text} (h : ts ≠ []) :
    join sep (t :: ts) = t ++ sep ++ join sep ts := by
  cases ts with
  | nil => exact absurd rfl h
  | cons u us => rfl

theorem any_join (p : CodePoint → Bool) {sep : Text} (hsep : sep.any p = false) (ts : List Text) :
    (join sep ts).any p = ts.any (fun t => t.any p) := by
  fun_induction join sep ts with
  | case1 => rfl
  | case2 t => simp
  | case3 t ts _ ih => simp [hsep, ih]

theorem mem_join {sep : Text} {ts : List Text} {c : CodePoint} (h : c ∈ join sep ts) :
    c ∈ sep ∨ ∃ t ∈ ts, c ∈ t := by
  fun_induction join sep ts with
  | case1 => cases h
  | case2 t => exact .inr ⟨t, by simp, h⟩
  | case3 t ts _ ih =>
    simp only [List.mem_append] at h
    rcases h with (h | h) | h
    · exact .inr ⟨t, by simp, h⟩
    · exact .inl h
    · rcases ih h with hsep | ⟨u, hu, hcu⟩
      · exact .inl hsep
      · exact .inr ⟨u, List.mem_cons_of_mem t hu, hcu⟩

theorem length_le_join {sep : Text} (hsep : sep ≠ []) (ts : List Text) :
    ts.length ≤ (join sep ts).length + 1 := by
  fun_induction join sep ts with
  | case1 => simp
  | case2 t => simp
  | case3 t ts _ ih =>
    have hpos : 0 < sep.length := List.length_pos_iff.mpr hsep
    simp only [List.length_append, List.length_cons]
    omega

end Callboard.Text
