import Callboard.Text.Blank
import Mathlib.Data.List.TakeWhile

/-!
# Where a run of code points stops

A run of one class of code points is not changed by what follows the first code
point of another class.
-/

set_option autoImplicit false

namespace Callboard.Text

variable {p : CodePoint → Bool}

theorem takeWhile_append_stop (a : Text) {c : CodePoint} (hc : p c = false) (b : Text) :
    (a ++ c :: b).takeWhile p = a.takeWhile p := by
  induction a with
  | nil => simp [hc]
  | cons x a ih =>
    by_cases hx : p x = true
    · simp [hx, ih]
    · simp [hx]

theorem dropWhile_append_stop (a : Text) {c : CodePoint} (hc : p c = false) (b : Text) :
    (a ++ c :: b).dropWhile p = a.dropWhile p ++ c :: b := by
  induction a with
  | nil => simp [hc]
  | cons x a ih =>
    by_cases hx : p x = true
    · simp [hx, ih]
    · simp [hx]

theorem span_of_all {a rest : Text} (ha : a.all p = true)
    (hrest : ∀ c ∈ rest.head?, p c = false) :
    (a ++ rest).takeWhile p = a ∧ (a ++ rest).dropWhile p = rest := by
  have hall : ∀ c ∈ a, p c = true := by simpa using ha
  rw [List.takeWhile_append_of_pos hall, List.dropWhile_append_of_pos hall]
  cases rest with
  | nil => simp
  | cons c r => simp [hrest c (by simp)]

theorem dropWhile_of_head {t : Text} (h : ∀ c ∈ t.head?, p c = false) : t.dropWhile p = t := by
  cases t with
  | nil => rfl
  | cons c r => simp [h c (by simp)]

theorem dropWhile_head (t : Text) : ∀ c ∈ (t.dropWhile p).head?, p c = false := by
  intro c hc
  have h := List.head?_dropWhile_not p t
  rw [Option.mem_def.mp hc] at h
  exact h

theorem skipBlank_append_cons {b : Text} (hb : b.all isBlank = true) {c : CodePoint}
    (hc : isBlank c = false) (r : Text) : skipBlank (b ++ c :: r) = c :: r := by
  rw [skipBlank_append_blank hb, skipBlank_cons_of_not_blank hc]

theorem skipBlank_eq_nil_iff (t : Text) : skipBlank t = [] ↔ t.all isBlank = true := by
  rw [skipBlank, List.dropWhile_eq_nil_iff, List.all_eq_true]

theorem strip_eq_nil_iff (t : Text) : strip t = [] ↔ t.all isBlank = true := by
  rw [strip, trim, List.reverse_eq_nil_iff, List.dropWhile_eq_nil_iff, ← List.all_eq_true,
    List.all_reverse, List.all_eq_true, ← List.dropWhile_eq_nil_iff,
    dropWhile_of_head (dropWhile_head t), List.dropWhile_eq_nil_iff, List.all_eq_true]

theorem strip_eq_prefix (t : Text) : ∃ b, t.dropWhile isBlank = strip t ++ b := by
  refine ⟨((t.dropWhile isBlank).reverse.takeWhile isBlank).reverse, ?_⟩
  rw [strip, trim, ← List.reverse_append, List.takeWhile_append_dropWhile, List.reverse_reverse]

theorem strip_subset (t : Text) : strip t ⊆ t := by
  intro c hc
  obtain ⟨b, hb⟩ := strip_eq_prefix t
  have hmem : c ∈ t.dropWhile isBlank := by
    rw [hb]
    exact List.mem_append_left b hc
  exact (List.dropWhile_sublist isBlank).subset hmem

theorem strip_head (t : Text) : ∀ c ∈ (strip t).head?, isBlank c = false := by
  intro c hc
  obtain ⟨b, hb⟩ := strip_eq_prefix t
  refine dropWhile_head t c ?_
  rw [hb]
  cases hs : strip t with
  | nil => simp [hs] at hc
  | cons x r => simpa [hs] using hc

theorem strip_last (t : Text) : ∀ c ∈ (strip t).getLast?, isBlank c = false := by
  intro c hc
  rw [strip, trim, List.getLast?_reverse] at hc
  exact dropWhile_head _ c hc

theorem strip_of_ends {t : Text} (hfirst : ∀ c ∈ t.head?, isBlank c = false)
    (hlast : ∀ c ∈ t.getLast?, isBlank c = false) : strip t = t := by
  rw [strip, trim, dropWhile_of_head hfirst, dropWhile_of_head, List.reverse_reverse]
  simpa using hlast

theorem strip_append_blanks {a b : Text} (ha : a.all isBlank = true) (hb : b.all isBlank = true)
    (t : Text) : strip (a ++ t ++ b) = strip t := by
  have hfront : ∀ c ∈ a, isBlank c = true := by simpa using ha
  have hblank : ∀ c ∈ b, isBlank c = true := by simpa using hb
  have hback : ∀ c ∈ b.reverse, isBlank c = true := by simpa using hb
  rw [strip, strip, trim, trim, List.append_assoc, List.dropWhile_append_of_pos hfront,
    List.dropWhile_append]
  by_cases ht : (t.dropWhile isBlank).isEmpty = true
  · rw [if_pos ht, List.isEmpty_iff.mp ht, List.dropWhile_eq_nil_iff.mpr hblank]
  · rw [if_neg ht, List.reverse_append, List.dropWhile_append_of_pos hback]

theorem strip_strip (t : Text) : strip (strip t) = strip t :=
  strip_of_ends (strip_head t) (strip_last t)

end Callboard.Text
