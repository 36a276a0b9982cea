import Callboard.Literal.Printer
import Callboard.Proofs.Literal.QuotedToken

/-!
# What escapes look like

A code point of a written string stands for itself, or is an escape with a letter, or is
an escape with four hexadecimal digits. Everything about written strings is seen in these
three cases.
-/

set_option autoImplicit false

namespace Callboard

open Text

namespace Literal

theorem hexEscape_unicodeEscape {c : Nat} (h : c < 0x10000) : HexEscape (unicodeEscape c) c := by
  have hdigit : ∀ n : Nat, hexValue? (hexDigit (n % 16)) = some (n % 16) :=
    fun n => hexValue_hexDigit _ (Nat.mod_lt n (by decide))
  have hescape := HexEscape.mk (hdigit (c / 16 / 16 / 16)) (hdigit (c / 16 / 16)) (hdigit (c / 16))
    (hdigit c)
  have hvalue : 0x1000 * (c / 16 / 16 / 16 % 16) + 0x100 * (c / 16 / 16 % 16) +
      0x10 * (c / 16 % 16) + c % 16 = c := by omega
  rw [hvalue] at hescape
  exact hescape

end Literal

namespace Json

open Literal

inductive Escapes : CodePoint → Text → Prop where
  | letter {e c : CodePoint} (h : (e, c) ∈ escapeLetters) : Escapes c [backslash, e]
  | hex {c : CodePoint} (h : c < 0x20) : Escapes c (unicodeEscape c)
  | plain {c : CodePoint} (hq : c ≠ quote) (hb : c ≠ backslash) (hc : 0x20 ≤ c) : Escapes c [c]

theorem escaped_escapes (c : CodePoint) : Escapes c (escaped c) := by
  unfold escaped
  iterate 7
    split
    · next h =>
      subst h
      exact .letter (by decide)
  split
  · next h => exact .hex h
  · next hq hb _ _ _ _ _ h => exact .plain hq hb (Nat.le_of_not_lt h)

theorem Escapes.space_le {c d : CodePoint} {s : Text} (h : Escapes c s) (hd : d ∈ s) :
    space ≤ d := by
  cases h with
  | letter h =>
    have hletters : ∀ p ∈ escapeLetters, ∀ d ∈ [backslash, p.1], space ≤ d := by decide
    exact hletters _ h d hd
  | hex h =>
    have hdigits : ∀ c < 0x20, ∀ d ∈ unicodeEscape c, space ≤ d := by decide
    exact hdigits c h d hd
  | plain _ _ hc =>
    obtain rfl := List.mem_singleton.mp hd
    exact hc

theorem space_le_string {t : Text} {d : CodePoint} (hd : d ∈ string t) : space ≤ d := by
  simp only [string, List.mem_append, List.mem_singleton, List.mem_flatMap] at hd
  rcases hd with (rfl | ⟨c, -, hc⟩) | rfl
  · decide
  · exact (escaped_escapes c).space_le hc
  · decide

end Json

end Callboard
