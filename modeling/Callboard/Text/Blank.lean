import Callboard.Text.Basic

/-!
# Blank code points

The white space of the formats in this library: the white space of Unicode and
the four information separators U+001C to U+001F.
-/

set_option autoImplicit false

namespace Callboard.Text

def isBlank (c : CodePoint) : Bool :=
  (0x09 ≤ c && c ≤ 0x0D) || (0x1C ≤ c && c ≤ 0x20) || c == 0x85 || c == 0xA0 || c == 0x1680 ||
    (0x2000 ≤ c && c ≤ 0x200A) || c == 0x2028 || c == 0x2029 || c == 0x202F || c == 0x205F ||
    c == 0x3000

def isWhiteSpace (c : CodePoint) : Bool := isBlank c && !(0x1C ≤ c && c ≤ 0x1F)

def skipBlank (t : Text) : Text := t.dropWhile isBlank

def trim (p : CodePoint → Bool) (t : Text) : Text :=
  ((t.dropWhile p).reverse.dropWhile p).reverse

def strip (t : Text) : Text := trim isBlank t

theorem skipBlank_length_le (t : Text) : (skipBlank t).length ≤ t.length := by
  unfold skipBlank
  exact (List.dropWhile_sublist isBlank).length_le

theorem skipBlank_append_blank {b : Text} (hb : b.all isBlank = true) (t : Text) :
    skipBlank (b ++ t) = skipBlank t := by
  induction b with
  | nil => rfl
  | cons c b ih =>
    simp only [List.all_cons, Bool.and_eq_true] at hb
    simp only [skipBlank, List.cons_append, List.dropWhile_cons, hb.1, if_true]
    exact ih hb.2

theorem skipBlank_cons_of_not_blank {c : CodePoint} (hc : isBlank c = false) (t : Text) :
    skipBlank (c :: t) = c :: t := by
  simp [skipBlank, hc]

theorem skipBlank_eq (t : Text) : ∃ b, b.all isBlank = true ∧ t = b ++ skipBlank t := by
  refine ⟨t.takeWhile isBlank, List.all_takeWhile, ?_⟩
  simp [skipBlank, List.takeWhile_append_dropWhile]

end Callboard.Text
