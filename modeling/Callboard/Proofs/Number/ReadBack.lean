import Callboard.Number.Shortest
import Callboard.Proofs.Number.Nearest
import Callboard.Proofs.Number.Spelling
import Callboard.Proofs.Text.Digits
import Callboard.Value.Display

/-!
# Written numbers read back

The text of a finite double is a numeral token with a point or a power of ten, and the
double nearest to it is the one that was written. A short text has been tried before it
is used, and a text with all the digits needs no rounding.
-/

set_option autoImplicit false

namespace Callboard.Numeral

open Text

theorem digitRun_map {ds : List Nat} (h : Decimals ds) : DigitRun (ds.map ofDigit) ds := by
  induction ds with
  | nil => exact .nil
  | cons d ds ih =>
    have hd : digit? (ofDigit d) = some d := digit?_ofDigit d (h d (by simp))
    exact .cons hd (ih (fun e he => h e (List.mem_cons_of_mem d he)))

theorem digitRun_zeros (k : Nat) : DigitRun (List.replicate k 0x30) (List.replicate k 0) := by
  have h : Decimals (List.replicate k 0) := by
    intro d hd
    rw [List.eq_of_mem_replicate hd]
    decide
  simpa [ofDigit] using digitRun_map h

theorem DigitRun.append {t u : Text} {ds es : List Nat} (ht : DigitRun t ds)
    (hu : DigitRun u es) : DigitRun (t ++ u) (ds ++ es) := by
  induction ht with
  | nil => exact hu
  | cons hd _ ih => exact .cons hd ih

theorem DigitRun.decimals {t : Text} {ds : List Nat} (h : DigitRun t ds) : Decimals ds := by
  induction h with
  | nil => simp [Decimals]
  | cons hd _ ih =>
    intro d hmem
    rcases List.mem_cons.mp hmem with rfl | hmem
    · exact digit?_lt hd
    · exact ih d hmem

inductive Unsigned : Text → Numeral → Prop where
  | mk {m p : Text} {whole : List Nat} {fraction : Option (List Nat)}
      {power : Option (Bool × List Nat)} (hm : Places m whole fraction) (hp : Power p power) :
      Unsigned (m ++ p) ⟨false, whole, fraction, power⟩

theorem Unsigned.spells {t : Text} {n : Numeral} (h : Unsigned t n) : Spells t n := by
  obtain ⟨hm, hp⟩ := h
  exact .mk .absent hm hp

theorem Unsigned.spells_minus {t : Text} {n : Numeral} (h : Unsigned t n) :
    Spells (minus :: t) { n with negative := true } := by
  obtain ⟨hm, hp⟩ := h
  exact .mk .minus hm hp

theorem Spells.not_integral {t : Text} {n : Numeral} (h : Spells t n) (hint : n.isInteger = false) :
    ¬ Integral t := by
  intro hi
  rw [h.isInteger_iff.mpr hi] at hint
  cases hint

theorem Unsigned.not_negative {t : Text} {n : Numeral} (h : Unsigned t n) : n.negative = false := by
  obtain ⟨-, -⟩ := h
  rfl

def decimalValue (n : Numeral) : ℚ :=
  (ofDigits (n.whole ++ n.fraction.getD []) : ℚ) *
    (10 : ℚ) ^ (n.powerValue - ((n.fraction.getD []).length : ℤ))

theorem toBinary64_eq (n : Numeral) :
    n.toBinary64 = .ofDecimal n.negative (ofDigits (n.whole ++ n.fraction.getD []))
      (n.powerValue - ((n.fraction.getD []).length : ℤ)) := rfl

end Callboard.Numeral

namespace Callboard.Binary64

open Text Numeral

def Written (t : Text) (v : ℚ) : Prop :=
  ∃ n, Unsigned t n ∧ n.isInteger = false ∧ n.decimalValue = v

theorem power_powerText (e : Int) : ∃ ds, Power (powerText e) (some (decide (e < 0), ds)) ∧
    ofDigits ds = e.natAbs := by
  refine ⟨List.replicate (2 - (decimal e.natAbs).length) 0 ++ digits e.natAbs, ?_, ?_⟩
  · have hrun := (digitRun_zeros (2 - (decimal e.natAbs).length)).append
      (digitRun_map (digits_decimals e.natAbs))
    have hne : List.replicate (2 - (decimal e.natAbs).length) 0 ++ digits e.natAbs ≠ [] := by
      simp [digits_ne_nil]
    by_cases he : e < 0
    · simpa [powerText, he, padLeft, decimal] using Power.present (.inl rfl) .minus hrun hne
    · simpa [powerText, he, padLeft, decimal] using Power.present (.inl rfl) .plus hrun hne
  · rw [ofDigits_zeros_append, ofDigits_digits]

theorem powerValue_powerText {whole ds : List Nat} {fraction : Option (List Nat)} {e : Int}
    (h : ofDigits ds = e.natAbs) :
    powerValue ⟨false, whole, fraction, some (decide (e < 0), ds)⟩ = e := by
  by_cases he : e < 0
  · simp only [powerValue, he, decide_true, h]
    omega
  · simp only [powerValue, he, decide_false, h]
    omega

theorem written_point {t u : Text} {ds fs : List Nat} (ht : DigitRun t ds) (hne : ds ≠ [])
    (hu : DigitRun u fs) :
    Written (t ++ dot :: u) (ofDigits (ds ++ fs) * (10 : ℚ) ^ (-(fs.length : ℤ))) := by
  have h : Unsigned (t ++ dot :: u ++ []) ⟨false, ds, some fs, none⟩ := .mk (.point ht hne hu) .absent
  rw [List.append_nil] at h
  refine ⟨_, h, rfl, ?_⟩
  simp [decimalValue, powerValue]

theorem written_small {ds : List Nat} (hds : Decimals ds) {p : Int} (hp : p ≤ 0) :
    Written (chars "0." ++ zeros (-p).toNat ++ ds.map ofDigit)
      (ofDigits ds * (10 : ℚ) ^ (p - ds.length)) := by
  have hrun := (digitRun_zeros (-p).toNat).append (digitRun_map hds)
  have h := written_point (digitRun_zeros 1) (by simp) hrun
  have hvalue : ofDigits (List.replicate 1 0 ++ (List.replicate (-p).toNat 0 ++ ds)) = ofDigits ds := by
    rw [ofDigits_zeros_append, ofDigits_zeros_append]
  have hplace : -((List.replicate (-p).toNat 0 ++ ds).length : ℤ) = p - ds.length := by
    rw [List.length_append, List.length_replicate]
    omega
  rw [hvalue, hplace] at h
  rw [List.append_assoc]
  exact h

theorem written_large {ds : List Nat} (hds : Decimals ds) {p : Int} (hp : 0 < p)
    (hlen : ds.length ≤ p.toNat) :
    Written (ds.map ofDigit ++ zeros (p.toNat - ds.length) ++ chars ".0")
      (ofDigits ds * (10 : ℚ) ^ (p - ds.length)) := by
  have hrun := (digitRun_map hds).append (digitRun_zeros (p.toNat - ds.length))
  have hne : ds ++ List.replicate (p.toNat - ds.length) 0 ≠ [] := by
    rw [← List.length_pos_iff, List.length_append, List.length_replicate]
    omega
  have h := written_point hrun hne (digitRun_zeros 1)
  have hvalue : (ofDigits (ds ++ List.replicate (p.toNat - ds.length) 0 ++ List.replicate 1 0) : ℚ) *
      (10 : ℚ) ^ (-((List.replicate 1 0).length : ℤ)) = ofDigits ds * (10 : ℚ) ^ (p - ds.length) := by
    have hplace : p - ds.length = ((p.toNat - ds.length : Nat) : ℤ) := by omega
    rw [ofDigits_append_zeros, ofDigits_append_zeros, hplace, zpow_natCast, List.length_replicate]
    push_cast
    norm_num
    ring
  rw [hvalue] at h
  exact h

theorem written_middle {ds : List Nat} (hds : Decimals ds) {p : Int} (hp : 0 < p)
    (hlen : p.toNat < ds.length) :
    Written ((ds.map ofDigit).take p.toNat ++ [dot] ++ (ds.map ofDigit).drop p.toNat)
      (ofDigits ds * (10 : ℚ) ^ (p - ds.length)) := by
  have htake := digitRun_map (fun d hd => hds d (List.mem_of_mem_take hd) : Decimals (ds.take p.toNat))
  have hdrop := digitRun_map (fun d hd => hds d (List.mem_of_mem_drop hd) : Decimals (ds.drop p.toNat))
  have hne : ds.take p.toNat ≠ [] := by
    rw [← List.length_pos_iff, List.length_take]
    omega
  have h := written_point htake hne hdrop
  have hplace : -((ds.drop p.toNat).length : ℤ) = p - ds.length := by
    rw [List.length_drop]
    omega
  rw [List.take_append_drop, hplace, List.map_take, List.map_drop] at h
  rw [List.append_assoc]
  exact h

theorem written_scientific {m : Text} {d : Nat} {ds : List Nat} {fraction : Option (List Nat)}
    (hm : Places m [d] fraction) (hf : fraction.getD [] = ds) (p : Int) :
    Written (m ++ powerText (p - 1))
      (ofDigits (d :: ds) * (10 : ℚ) ^ (p - ((d :: ds).length : ℤ))) := by
  obtain ⟨es, hpower, hes⟩ := power_powerText (p - 1)
  refine ⟨_, .mk hm hpower, by simp [isInteger], ?_⟩
  have hplace : p - 1 - (ds.length : ℤ) = p - ((d :: ds).length : ℤ) := by
    rw [List.length_cons]
    omega
  rw [decimalValue, powerValue_powerText hes]
  simp only [hf, hplace, List.singleton_append]

/-- Digits that are laid out are the decimal that they stand for. Only no digits at all
may have no text. -/
theorem layout_written {ds : List Nat} (hds : Decimals ds) (p : Int) (hne : layout ds p ≠ []) :
    Written (layout ds p) (ofDigits ds * (10 : ℚ) ^ (p - ds.length)) := by
  unfold layout at hne ⊢
  simp only [List.length_map] at hne ⊢
  -- in front of the digits, behind them, or among them; else with a power of ten
  by_cases hrange : -4 < p ∧ p ≤ 16
  · rw [if_pos hrange]
    by_cases hp : p ≤ 0
    · rw [if_pos hp]
      exact written_small hds hp
    · rw [if_neg hp]
      by_cases hlen : ds.length ≤ p.toNat
      · rw [if_pos hlen]
        exact written_large hds (not_le.mp hp) hlen
      · rw [if_neg hlen]
        exact written_middle hds (not_le.mp hp) (not_le.mp hlen)
  · rw [if_neg hrange] at hne ⊢
    cases ds with
    | nil => exact absurd rfl hne
    | cons d ds =>
      have hd : DigitRun [ofDigit d] [d] := .cons (digit?_ofDigit d (hds d (by simp))) .nil
      have hrun : DigitRun (ds.map ofDigit) ds :=
        digitRun_map (fun e he => hds e (List.mem_cons_of_mem d he))
      cases ds with
      | nil => exact written_scientific (.whole hd (by simp)) rfl p
      | cons e es => exact written_scientific (.point hd (by simp) hrun) rfl p

theorem layout_ne_nil {ds : List Nat} (hne : ds ≠ []) (p : Int) : layout ds p ≠ [] := by
  obtain ⟨d, ds, rfl⟩ := List.exists_cons_of_ne_nil hne
  unfold layout
  simp only
  split
  · split
    · simp
    · split <;> simp
  · cases ds <;> simp

theorem dropTrailingZeros_eq (ds : List Nat) :
    ∃ k, ds = dropTrailingZeros ds ++ List.replicate k 0 := by
  have hzeros : ∀ d ∈ ds.reverse.takeWhile (fun d => d == 0), d = 0 := by
    intro d hd
    have h := List.all_eq_true.mp List.all_takeWhile d hd
    simpa using h
  refine ⟨(ds.reverse.takeWhile (fun d => d == 0)).length, ?_⟩
  have hsplit : ds.reverse.takeWhile (fun d => d == 0) ++ ds.reverse.dropWhile (fun d => d == 0) =
      ds.reverse := List.takeWhile_append_dropWhile
  have h := congrArg List.reverse hsplit
  rw [List.reverse_append, List.reverse_reverse, List.eq_replicate_of_mem hzeros,
    List.reverse_replicate] at h
  exact h.symm

theorem decimalText_written (mantissa : Nat) (e : Int) (hne : decimalText mantissa e ≠ []) :
    Written (decimalText mantissa e) (mantissa * (10 : ℚ) ^ e) := by
  obtain ⟨k, hk⟩ := dropTrailingZeros_eq (digits mantissa)
  have hds : Decimals (dropTrailingZeros (digits mantissa)) := by
    intro d hd
    refine digits_decimals mantissa d ?_
    rw [hk]
    exact List.mem_append_left _ hd
  have h := layout_written hds _ hne
  have hvalue := ofDigits_digits mantissa
  rw [hk, ofDigits_append_zeros] at hvalue
  have hlen : ((digits mantissa).length : ℤ) = (dropTrailingZeros (digits mantissa)).length + k := by
    have := congrArg List.length hk
    rw [List.length_append, List.length_replicate] at this
    exact_mod_cast this
  have heq : (ofDigits (dropTrailingZeros (digits mantissa)) : ℚ) *
      (10 : ℚ) ^ ((digits mantissa).length + e - (dropTrailingZeros (digits mantissa)).length) =
      mantissa * (10 : ℚ) ^ e := by
    have hplace : ((digits mantissa).length : ℤ) + e - (dropTrailingZeros (digits mantissa)).length =
        k + e := by omega
    rw [hplace, zpow_add₀ (by norm_num), zpow_natCast, ← mul_assoc]
    congr 1
    exact_mod_cast hvalue
  rw [heq] at h
  exact h

theorem decimalText_ne_nil {mantissa : Nat} (hm : mantissa ≠ 0) (e : Int) :
    decimalText mantissa e ≠ [] := by
  apply layout_ne_nil
  intro hnil
  obtain ⟨k, hk⟩ := dropTrailingZeros_eq (digits mantissa)
  have hvalue := ofDigits_digits mantissa
  rw [hk, hnil, List.nil_append, ofDigits_zeros] at hvalue
  exact hm hvalue.symm

theorem exactText_written {rank : Nat} (hrank : rank ≠ 0) :
    Written (exactText rank) (magnitude rank) := by
  have hsig := significand_pos hrank
  unfold exactText
  split
  · next k hexp =>
    have hne : significand rank * Nat.pow 2 k ≠ 0 := Nat.mul_ne_zero hsig.ne' (pow_ne_zero k (by decide : (2 : Nat) ≠ 0))
    have h := decimalText_written _ 0 (decimalText_ne_nil hne 0)
    have hvalue : ((significand rank * Nat.pow 2 k : Nat) : ℚ) * (10 : ℚ) ^ (0 : ℤ) = magnitude rank := by
      rw [magnitude, hexp, Int.ofNat_eq_natCast, zpow_natCast, zpow_zero, mul_one]
      push_cast [Nat.pow_eq]
      rfl
    rw [hvalue] at h
    exact h
  · next k hexp =>
    have hne : significand rank * Nat.pow 5 (k + 1) ≠ 0 :=
      Nat.mul_ne_zero hsig.ne' (pow_ne_zero (k + 1) (by decide : (5 : Nat) ≠ 0))
    have h := decimalText_written _ (.negSucc k) (decimalText_ne_nil hne _)
    have hvalue : ((significand rank * Nat.pow 5 (k + 1) : Nat) : ℚ) * (10 : ℚ) ^ Int.negSucc k =
        magnitude rank := by
      have hten : (10 : ℚ) ^ (k + 1) = 2 ^ (k + 1) * 5 ^ (k + 1) := by
        rw [← mul_pow]
        norm_num
      rw [magnitude, hexp, zpow_negSucc, zpow_negSucc, hten]
      push_cast [Nat.pow_eq]
      field_simp
    rw [hvalue] at h
    exact h

def ReadsBack (t : Text) (rank : Fin rankLimit) : Prop :=
  ∃ n, Unsigned t n ∧ n.isInteger = false ∧
    ∀ sign, ({ n with negative := sign } : Numeral).toBinary64 = .finite sign rank

theorem mem_neighbours {t : Text} {rank count : Nat} {p : Int} (h : t ∈ neighbours rank p count) :
    ∃ mantissa e, t = decimalText mantissa e := by
  simp only [neighbours, List.mem_cons, List.not_mem_nil, or_false] at h
  rcases h with rfl | rfl
  · exact ⟨_, _, rfl⟩
  · exact ⟨_, _, rfl⟩

theorem readsBack_of_ofNumeral? {mantissa : Nat} {e : Int} {rank : Fin rankLimit}
    (h : ofNumeral? (decimalText mantissa e) = some (.finite false rank)) :
    ReadsBack (decimalText mantissa e) rank := by
  have hne : decimalText mantissa e ≠ [] := by
    intro hnil
    rw [hnil] at h
    cases h
  obtain ⟨n, hn, hint, -⟩ := decimalText_written mantissa e hne
  have hscan := hn.spells.scan? (by simp [Closed] : Closed [])
  rw [List.append_nil] at hscan
  rw [ofNumeral?, hscan] at h
  have hread : n.toBinary64 = .finite false rank := Option.some.inj h
  rw [toBinary64_eq, hn.not_negative] at hread
  exact ⟨n, hn, hint, fun sign => ofDecimal_sign hread sign⟩

theorem exactText_readsBack {rank : Fin rankLimit} (hrank : rank.val ≠ 0) :
    ReadsBack (exactText rank) rank := by
  obtain ⟨n, hn, hint, hvalue⟩ := exactText_written hrank
  exact ⟨n, hn, hint, fun sign => ofDecimal_magnitude sign hvalue hrank⟩

theorem magnitudeText_readsBack (rank : Fin rankLimit) : ReadsBack (magnitudeText rank) rank := by
  unfold magnitudeText
  by_cases hrank : rank.val = 0
  · rw [if_pos hrank]
    have hzero : rank = ⟨0, rankLimit_pos⟩ := Fin.ext hrank
    refine ⟨_, .mk (.point (digitRun_zeros 1) (by simp) (digitRun_zeros 1)) .absent, rfl, ?_⟩
    intro sign
    rw [hzero]
    rfl
  · rw [if_neg hrank]
    simp only
    cases hfind : List.find? _ _ with
    | none =>
      -- no short text reads back, but all the digits do
      exact exactText_readsBack hrank
    | some t =>
      have hread := List.find?_some hfind
      obtain ⟨i, -, ht⟩ := List.mem_flatMap.mp (List.mem_of_find?_eq_some hfind)
      obtain ⟨mantissa, e, rfl⟩ := mem_neighbours ht
      exact readsBack_of_ofNumeral? (by simpa using hread)

/-- The text of a finite double is a token that is no integer, and reads back as the double. -/
theorem write_spelled {x : Binary64} (hx : x.isFinite = true) :
    ∃ n, Spells x.write n ∧ ¬ Integral x.write ∧ n.toBinary64 = x := by
  cases x with
  | nan => cases hx
  | infinite _ => cases hx
  | finite negative rank =>
    obtain ⟨n, hn, hint, hread⟩ := magnitudeText_readsBack rank
    cases negative with
    | false =>
      have hsame : ({ n with negative := false } : Numeral) = n := by
        rw [← hn.not_negative]
      have hread := hread false
      rw [hsame] at hread
      exact ⟨n, hn.spells, hn.spells.not_integral hint, hread⟩
    | true => exact ⟨_, hn.spells_minus, hn.spells_minus.not_integral hint, hread true⟩

end Callboard.Binary64

namespace Callboard.Value

open Text Numeral

/-- The text of an integer is a token without a point or an exponent mark, and reads back
as the integer. -/
theorem intText?_spelled {i : Int} {t : Text} (h : intText? i = some t) :
    ∃ n, Spells t n ∧ Integral t ∧ n.whole.length ≤ integerDigitLimit ∧ n.toInt = i := by
  unfold intText? at h
  split at h
  · cases h
  next hlen =>
  have hlen := Nat.not_lt.mp hlen
  obtain rfl := Option.some.inj h
  have hplaces : Places (decimal i.natAbs) (digits i.natAbs) none :=
    .whole (digitRun_map (digits_decimals _)) (digits_ne_nil _)
  cases i with
  | ofNat k =>
    have hspells : Spells (decimal k ++ []) ⟨false, digits k, none, none⟩ := .mk .absent hplaces .absent
    rw [List.append_nil] at hspells
    refine ⟨_, hspells, hspells.isInteger_iff.mp rfl, hlen, ?_⟩
    simp [toInt, ofDigits_digits]
  | negSucc k =>
    have hspells : Spells (minus :: (decimal (k + 1) ++ [])) ⟨true, digits (k + 1), none, none⟩ :=
      .mk .minus hplaces .absent
    rw [List.append_nil] at hspells
    refine ⟨_, hspells, hspells.isInteger_iff.mp rfl, hlen, ?_⟩
    simp [toInt, ofDigits_digits, Int.negSucc_eq]

theorem digits_toInt_length {t : Text} {n : Numeral} (h : Spells t n) (hi : Integral t) :
    (digits n.toInt.natAbs).length ≤ n.whole.length := by
  have hint := h.isInteger_iff.mpr hi
  obtain ⟨-, hm, -⟩ := h
  next negative whole fraction power =>
  cases hm with
  | point _ _ _ => simp [isInteger] at hint
  | bare _ _ => simp [isInteger] at hint
  | whole hrun hne =>
    have habs : (toInt ⟨negative, whole, none, power⟩).natAbs = ofDigits whole := by
      unfold toInt
      split <;> simp
    rw [habs]
    exact digits_length_le hrun.decimals hne

end Callboard.Value
