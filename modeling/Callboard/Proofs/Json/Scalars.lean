import Callboard.Json.Reader
import Callboard.Proofs.Json.Escape
import Callboard.Proofs.Text.Digits
import Mathlib.Tactic.IntervalCases

/-!
# Scalars are read back

A written string is read as its text, whatever stands behind it, and so is a word. An integer
is read up to its last digit if nothing stands behind it that goes on with it.
-/

set_option autoImplicit false

namespace Callboard.Json

open Text Literal

theorem scanString_plain {c : CodePoint} (hq : c ≠ quote) (hb : c ≠ backslash) (hc : space ≤ c)
    (start r : Text) : scanString start (c :: r) =
      (scanString start r).map (fun p => (.plain c :: p.1, p.2)) := by
  rw [scanString]
  · rw [if_neg (Nat.not_lt.mpr hc)]
  all_goals simp_all

theorem scanString_letter {e c : CodePoint} (h : (e, c) ∈ escapeLetters) (start r : Text) :
    scanString start (backslash :: e :: r) =
      (scanString start r).map (fun p => (.escape c :: p.1, p.2)) := by
  have hu : e ≠ letterU := by
    rintro rfl
    cases letter?_of_mem h
  rw [scanString]
  · rw [letter?_of_mem h]
  all_goals simp [hu]

theorem scanString_hex {e r : Text} {c : CodePoint} (he : HexEscape e c) (hr : r ≠ [])
    (start : Text) : scanString start (e ++ r) =
      (scanString start r).map (fun p => (.escape c :: p.1, p.2)) := by
  obtain ⟨ha, hb, hc, hd⟩ := he
  obtain ⟨x, r, rfl⟩ := List.exists_cons_of_ne_nil hr
  simp [scanString, hex4?_of_values ha hb hc hd]

/-- One code point is read back as one piece, which is no high surrogate that is escaped. -/
theorem scanString_escapes {c : CodePoint} {s : Text} (h : Escapes c s) :
    ∃ p, (∀ ps, assemble (p :: ps) = c :: assemble ps) ∧ ∀ start r, r ≠ [] →
      scanString start (s ++ r) = (scanString start r).map (fun q => (p :: q.1, q.2)) := by
  cases h with
  | letter h =>
    refine ⟨.escape c, fun ps => assemble_escape fun _ _ _ hc => ?_, fun start r _ => ?_⟩
    · simp [(isHighSurrogate_of_letter h).1] at hc
    · exact scanString_letter h start r
  | hex h =>
    have hhigh : ∀ c < 0x20, isHighSurrogate c = false := by decide
    have hescape : HexEscape (unicodeEscape c) c :=
      hexEscape_unicodeEscape (Nat.lt_trans h (by decide))
    refine ⟨.escape c, fun ps => assemble_escape fun _ _ _ hc => ?_, fun start r hr => ?_⟩
    · simp [hhigh c h] at hc
    · exact scanString_hex hescape hr start
  | plain hq hb hc =>
    exact ⟨.plain c, fun _ => rfl, fun start r _ => scanString_plain hq hb hc start r⟩

theorem scanString_escaped (start t rest : Text) :
    ∃ ps, scanString start (t.flatMap escaped ++ quote :: rest) = .ok (ps, rest) ∧
      assemble ps = t := by
  induction t with
  | nil => exact ⟨[], rfl, rfl⟩
  | cons c t ih =>
    obtain ⟨ps, hps, hassemble⟩ := ih
    obtain ⟨p, hp, hscan⟩ := scanString_escapes (escaped_escapes c)
    refine ⟨p :: ps, ?_, by rw [hp, hassemble]⟩
    rw [List.flatMap_cons, List.append_assoc, hscan _ _ (by simp), hps]
    rfl

theorem string_starts (t r : Text) :
    string t ++ r = quote :: (t.flatMap escaped ++ quote :: r) := by
  simp [string]

theorem readString_string (t rest : Text) : readString (string t ++ rest) = .ok (t, rest) := by
  obtain ⟨ps, hps, rfl⟩ := scanString_escaped (string t ++ rest) t rest
  rw [string_starts] at hps ⊢
  rw [readString, List.tail_cons, hps]
  rfl

theorem value_string (room : Nat) (t rest : Text) :
    value room (string t ++ rest) = .ok (.text t, rest) := by
  have hread := readString_string t rest
  rw [string_starts] at hread ⊢
  rw [value, hread]
  rfl

/-- What may stand behind a value: it ends there, or a separator or a closing bracket follows. -/
def Closes (r : Text) : Prop := ∀ c ∈ r.head?, c = comma ∨ c = closeBracket ∨ c = closeBrace

theorem closes_nil : Closes [] := fun _ hc => by cases hc

theorem closes_cons {c : CodePoint} (h : c = comma ∨ c = closeBracket ∨ c = closeBrace) (r : Text) :
    Closes (c :: r) := fun _ hd => Option.some.inj hd ▸ h

theorem scanDigits_closes {r : Text} (h : Closes r) : scanDigits r = ([], r) := by
  cases r with
  | nil => rfl
  | cons c r => rcases h c rfl with rfl | rfl | rfl <;> rfl

theorem scanFraction_closes {r : Text} (h : Closes r) : scanFraction r = (none, r) := by
  cases r with
  | nil => rfl
  | cons c r => rcases h c rfl with rfl | rfl | rfl <;> rfl

theorem scanPower_closes {r : Text} (h : Closes r) : scanPower r = (none, r) := by
  cases r with
  | nil => rfl
  | cons c r => rcases h c rfl with rfl | rfl | rfl <;> rfl

theorem scanDigits_decimals {ds : List Nat} (hds : Decimals ds) {r : Text} (h : Closes r) :
    scanDigits (ds.map ofDigit ++ r) = (ds, r) := by
  induction ds with
  | nil => exact scanDigits_closes h
  | cons d ds ih =>
    have hd : d < 10 := hds d List.mem_cons_self
    have hdigit : ∀ d < 10, isAsciiDigit (ofDigit d) = true ∧ ofDigit d - 0x30 = d := by decide
    obtain ⟨hascii, hvalue⟩ := hdigit d hd
    rw [List.map_cons, List.cons_append, scanDigits, if_pos hascii, hvalue,
      ih fun e he => hds e (List.mem_cons_of_mem d he)]

theorem scanWhole_decimal (n : Nat) {r : Text} (h : Closes r) :
    scanWhole (decimal n ++ r) = (digits n, r) := by
  have hscan := scanDigits_decimals (digits_decimals n) h
  obtain ⟨d, ds, hds⟩ := List.exists_cons_of_ne_nil (digits_ne_nil n)
  rw [decimal]
  rw [hds] at hscan ⊢
  by_cases hd : d = 0
  · -- a zero in front is the only digit
    subst hd
    obtain rfl := digits_leading_zero hds
    rfl
  · have hne : ofDigit d ≠ 0x30 := fun heq => hd (Nat.add_left_cancel heq)
    rw [← hscan, List.map_cons, List.cons_append]
    unfold scanWhole
    split
    · next heq => exact absurd (List.cons.inj heq).1 hne
    · rfl
theorem scanNumeral?_decimal (n : Nat) {r : Text} (h : Closes r) :
    scanNumeral? (decimal n ++ r) = some (⟨false, digits n, none, none⟩, r) := by
  have hsign : ∀ t, decimal n ++ r ≠ minus :: t := by
    intro t heq
    obtain ⟨d, ds, hds⟩ := List.exists_cons_of_ne_nil (digits_ne_nil n)
    have hd : d < 10 := digits_decimals n d (hds ▸ List.mem_cons_self)
    rw [decimal, hds] at heq
    have hminus : ∀ d < 10, ofDigit d ≠ minus := by decide
    exact hminus d hd (List.cons.inj heq).1
  obtain ⟨d, ds, hds⟩ := List.exists_cons_of_ne_nil (digits_ne_nil n)
  have hwhole := scanWhole_decimal n h
  unfold scanNumeral?
  split
  next negative s₁ heq =>
  split at heq
  · next t ht => exact absurd ht (hsign t)
  · obtain ⟨rfl, rfl⟩ := Prod.mk.inj heq
    rw [hds] at hwhole
    simp only [hwhole, hds, scanFraction_closes h, scanPower_closes h]

section
variable (room : Nat) {c : CodePoint} {r : Text} (hq : c ≠ quote) (ho : c ≠ openBrace)
  (hb : c ≠ openBracket)
include hq ho hb

theorem value_word {p : Value × Text} (hw : word? (c :: r) = some p) :
    value room (c :: r) = .ok p := by
  rw [value, hw]
  all_goals simp_all

theorem value_number (hw : word? (c :: r) = none) :
    value room (c :: r) = readNumber (c :: r) := by
  rw [value, hw]
  all_goals simp_all

end

theorem value_null (room : Nat) (r : Text) : value room (chars "null" ++ r) = .ok (.null, r) :=
  value_word room (by decide) (by decide) (by decide) rfl

theorem value_true (room : Nat) (r : Text) :
    value room (chars "true" ++ r) = .ok (.bool true, r) :=
  value_word room (by decide) (by decide) (by decide) rfl

theorem value_false (room : Nat) (r : Text) :
    value room (chars "false" ++ r) = .ok (.bool false, r) :=
  value_word room (by decide) (by decide) (by decide) rfl

theorem word?_digit {d : Nat} (hd : d < 10) (r : Text) :
    word? (ofDigit d :: r) = none ∧ word? (minus :: ofDigit d :: r) = none := by
  interval_cases d <;> exact ⟨rfl, rfl⟩

theorem signedDecimal_starts (i : Int) :
    ∃ c t, signedDecimal i = c :: t ∧ isSpace c = false ∧ c ≠ closeBracket := by
  cases i with
  | ofNat n =>
    obtain ⟨d, t, hd, hdecimal⟩ := decimal_starts n
    have hdigit : ∀ d < 10, isSpace (ofDigit d) = false ∧ ofDigit d ≠ closeBracket := by decide
    exact ⟨ofDigit d, t, hdecimal, hdigit d hd⟩
  | negSucc n => exact ⟨minus, decimal (n + 1), rfl, rfl, by decide⟩

theorem readNumber_integer {i : Int} {s r : Text} {negative : Bool}
    (h : scanNumeral? s = some (⟨negative, digits i.natAbs, none, none⟩, r))
    (hi : i = if negative then -(i.natAbs : Int) else i.natAbs)
    (hlimit : (digits i.natAbs).length ≤ integerDigitLimit) : readNumber s = .ok (.int i, r) := by
  have hvalue : (Numeral.mk negative (digits i.natAbs) none none).toInt = i := by
    rw [Numeral.toInt, ofDigits_digits]
    exact hi.symm
  unfold readNumber
  rw [h]
  simp only [Numeral.isInteger, Option.isNone_none, Bool.and_self, if_true,
    if_neg (Nat.not_lt.mpr hlimit), hvalue]

theorem value_integer (room : Nat) {i : Int} (hlimit : (digits i.natAbs).length ≤ integerDigitLimit)
    {r : Text} (h : Closes r) : value room (signedDecimal i ++ r) = .ok (.int i, r) := by
  have hstart : ∀ d < 10, ofDigit d ≠ quote ∧ ofDigit d ≠ openBrace ∧ ofDigit d ≠ openBracket := by
    decide
  cases i with
  | ofNat n =>
    obtain ⟨d, t, hd, hdecimal⟩ := decimal_starts n
    obtain ⟨hq, ho, hb⟩ := hstart d hd
    have hread := readNumber_integer (i := n) (scanNumeral?_decimal n h) rfl hlimit
    rw [signedDecimal]
    rw [hdecimal, List.cons_append] at hread ⊢
    exact (value_number room hq ho hb (word?_digit hd _).1).trans hread
  | negSucc n =>
    obtain ⟨d, t, hd, hdecimal⟩ := decimal_starts (n + 1)
    have hscan : scanNumeral? (minus :: decimal (n + 1) ++ r) =
        some (⟨true, digits (n + 1), none, none⟩, r) := by
      have hwhole := scanWhole_decimal (n + 1) h
      obtain ⟨d, ds, hds⟩ := List.exists_cons_of_ne_nil (digits_ne_nil (n + 1))
      rw [hds] at hwhole
      simp only [scanNumeral?, List.cons_append, hwhole, hds, scanFraction_closes h, scanPower_closes h]
    have hread := readNumber_integer (i := Int.negSucc n) hscan rfl hlimit
    rw [signedDecimal]
    rw [hdecimal, List.cons_append, List.cons_append] at hread ⊢
    exact (value_number room (by decide) (by decide) (by decide) (word?_digit hd _).2).trans hread

end Callboard.Json
