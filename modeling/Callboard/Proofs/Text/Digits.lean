import Callboard.Text.DecimalDigit
import Mathlib.Tactic.Ring

/-!
# Numbers and their decimal digits

The digits of a number are decimal, stand for the number, and are as few as can be.
-/

set_option autoImplicit false

namespace Callboard.Text

def Decimals (ds : List Nat) : Prop := ∀ d ∈ ds, d < 10

theorem ofDigits_foldl (ds : List Nat) (n : Nat) :
    ds.foldl (fun n d => 10 * n + d) n = n * 10 ^ ds.length + ofDigits ds := by
  induction ds generalizing n with
  | nil => simp [ofDigits]
  | cons d ds ih =>
    have h : ofDigits (d :: ds) = d * 10 ^ ds.length + ofDigits ds := by
      rw [ofDigits, List.foldl_cons, ih, Nat.mul_zero, Nat.zero_add]
    rw [List.foldl_cons, ih, h, List.length_cons]
    ring

theorem ofDigits_append (ds es : List Nat) :
    ofDigits (ds ++ es) = ofDigits ds * 10 ^ es.length + ofDigits es := by
  rw [ofDigits, List.foldl_append]
  exact ofDigits_foldl es (ofDigits ds)

theorem ofDigits_zeros (k : Nat) : ofDigits (List.replicate k 0) = 0 := by
  induction k with
  | zero => rfl
  | succ k ih => rw [List.replicate_succ', ofDigits_append, ih]; rfl

theorem ofDigits_zeros_append (k : Nat) (ds : List Nat) :
    ofDigits (List.replicate k 0 ++ ds) = ofDigits ds := by
  rw [ofDigits_append, ofDigits_zeros, Nat.zero_mul, Nat.zero_add]

theorem ofDigits_append_zeros (ds : List Nat) (k : Nat) :
    ofDigits (ds ++ List.replicate k 0) = ofDigits ds * 10 ^ k := by
  rw [ofDigits_append, ofDigits_zeros, List.length_replicate, Nat.add_zero]

theorem ofDigits_lt {ds : List Nat} (h : Decimals ds) : ofDigits ds < 10 ^ ds.length := by
  induction ds with
  | nil => simp [ofDigits]
  | cons d ds ih =>
    have hd : d < 10 := h d (by simp)
    have hds := ih (fun e he => h e (List.mem_cons_of_mem _ he))
    have happend := ofDigits_append [d] ds
    have hone : ofDigits [d] = d := by simp [ofDigits]
    rw [List.singleton_append, hone] at happend
    rw [happend, List.length_cons]
    calc d * 10 ^ ds.length + ofDigits ds < d * 10 ^ ds.length + 10 ^ ds.length := by omega
      _ = (d + 1) * 10 ^ ds.length := by ring
      _ ≤ 10 * 10 ^ ds.length := Nat.mul_le_mul_right _ (by omega)
      _ = 10 ^ (ds.length + 1) := by ring

/-- Decimal digits that stand for a number, and no more of them than it takes. -/
structure DigitsOf (n : Nat) (ds : List Nat) : Prop where
  decimals : Decimals ds
  value : ofDigits ds = n
  ne_nil : ds ≠ []
  fewest : ∀ k, n < 10 ^ (k + 1) → ds.length ≤ k + 1

theorem DigitsOf.single {n : Nat} (h : n < 10) : DigitsOf n [n] :=
  ⟨by simpa [Decimals] using h, by simp [ofDigits], by simp, by simp⟩

theorem DigitsOf.concat {n : Nat} {ds : List Nat} (hn : ¬ n < 10) (h : DigitsOf (n / 10) ds) :
    DigitsOf n (ds ++ [n % 10]) := by
  constructor
  · intro d hd
    rcases List.mem_append.mp hd with hd | hd
    · exact h.decimals d hd
    · rw [List.mem_singleton.mp hd]
      exact Nat.mod_lt _ (by decide)
  · have hlast : ofDigits [n % 10] = n % 10 := by simp [ofDigits]
    rw [ofDigits_append, h.value, hlast, List.length_singleton]
    omega
  · simp
  · intro k hk
    cases k with
    | zero => exact absurd hk hn
    | succ k =>
      have hdiv : n / 10 < 10 ^ (k + 1) := by
        rw [Nat.div_lt_iff_lt_mul (by decide), ← Nat.pow_succ]
        exact hk
      have hlen := h.fewest k hdiv
      simpa using hlen

/-- With room for all the digits of `n`, exactly its digits are put in front. -/
theorem digitsOnto_eq (fuel : Nat) {n : Nat} (h : n < 10 ^ (fuel + 1)) (acc : List Nat) :
    ∃ ds, digitsOnto (fuel + 1) n acc = ds ++ acc ∧ DigitsOf n ds := by
  induction fuel generalizing n acc with
  | zero =>
    have hn : n < 10 := h
    exact ⟨[n], by simp [digitsOnto, hn], .single hn⟩
  | succ fuel ih =>
    by_cases hn : n < 10
    · exact ⟨[n], by simp [digitsOnto, hn], .single hn⟩
    · -- the last digit goes in front first, the digits of the tenth part before it
      have hdiv : n / 10 < 10 ^ (fuel + 1) := by
        rw [Nat.div_lt_iff_lt_mul (by decide), ← Nat.pow_succ]
        exact h
      obtain ⟨ds, heq, hds⟩ := ih hdiv (n % 10 :: acc)
      refine ⟨ds ++ [n % 10], ?_, hds.concat hn⟩
      rw [digitsOnto, if_neg hn, heq]
      simp

theorem digits_digitsOf (n : Nat) : DigitsOf n (digits n) := by
  have hlog : n < 10 ^ (n.log2 + 1) :=
    Nat.lt_log2_self.trans_le (Nat.pow_le_pow_left (by decide) _)
  obtain ⟨ds, heq, h⟩ := digitsOnto_eq n.log2 hlog []
  rw [List.append_nil] at heq
  rw [digits, heq]
  exact h

theorem digits_decimals (n : Nat) : Decimals (digits n) := (digits_digitsOf n).decimals

theorem ofDigits_digits (n : Nat) : ofDigits (digits n) = n := (digits_digitsOf n).value

theorem decimal_injective {m n : Nat} (h : decimal m = decimal n) : m = n := by
  have hdigits : digits m = digits n :=
    (List.map_inj_right fun _ _ hde => Nat.add_left_cancel hde).mp h
  rw [← ofDigits_digits m, hdigits, ofDigits_digits]

theorem decimal_ne_signed (m n : Nat) : decimal m ≠ minus :: decimal n := by
  intro h
  have hmem : minus ∈ decimal m := h ▸ List.mem_cons_self
  obtain ⟨d, -, hd⟩ := List.mem_map.mp hmem
  have hle : 0x30 ≤ ofDigit d := Nat.le_add_right _ _
  rw [hd] at hle
  exact absurd hle (by decide)

theorem signedDecimal_injective {a b : Int} (h : signedDecimal a = signedDecimal b) : a = b := by
  cases a with
  | ofNat m =>
    cases b with
    | ofNat n => rw [decimal_injective h]
    | negSucc n => exact absurd h (decimal_ne_signed m (n + 1))
  | negSucc m =>
    cases b with
    | ofNat n => exact absurd h.symm (decimal_ne_signed n (m + 1))
    | negSucc n =>
      have hsucc : m + 1 = n + 1 := decimal_injective (List.cons.inj h).2
      rw [Nat.succ.inj hsucc]

theorem digits_ne_nil (n : Nat) : digits n ≠ [] := (digits_digitsOf n).ne_nil

theorem decimal_starts (n : Nat) : ∃ d t, d < 10 ∧ decimal n = ofDigit d :: t := by
  obtain ⟨d, ds, hds⟩ := List.exists_cons_of_ne_nil (digits_ne_nil n)
  refine ⟨d, ds.map ofDigit, digits_decimals n d (hds ▸ List.mem_cons_self), ?_⟩
  rw [decimal, hds, List.map_cons]

/-- A zero in front stands alone. -/
theorem digits_leading_zero {n : Nat} {ds : List Nat} (h : digits n = 0 :: ds) : ds = [] := by
  obtain ⟨hdecimals, hvalue, -, hfewest⟩ := h ▸ digits_digitsOf n
  have hrest : Decimals ds := fun d hd => hdecimals d (List.mem_cons_of_mem 0 hd)
  have hn : n < 10 ^ ds.length := by
    rw [← hvalue]
    exact ofDigits_lt hrest
  cases ds with
  | nil => rfl
  | cons d ds =>
    have hlength := hfewest ds.length hn
    simp at hlength

theorem digits_length_le_of_lt {n k : Nat} (hk : k ≠ 0) (h : n < 10 ^ k) :
    (digits n).length ≤ k := by
  obtain ⟨m, rfl⟩ := Nat.exists_eq_succ_of_ne_zero hk
  exact (digits_digitsOf n).fewest m h

theorem digits_length_le {ds : List Nat} (h : Decimals ds) (hne : ds ≠ []) :
    (digits (ofDigits ds)).length ≤ ds.length :=
  digits_length_le_of_lt (mt List.length_eq_zero_iff.mp hne) (ofDigits_lt h)

theorem digit?_lt {c d : Nat} (h : digit? c = some d) : d < 10 := by
  unfold digit? at h
  split at h
  · split at h
    · next hc =>
      simp only [isAsciiDigit, Bool.and_eq_true, decide_eq_true_eq] at hc
      obtain rfl := Option.some.inj h
      unfold CodePoint at hc
      omega
    · cases h
  · obtain ⟨first, hfind, rfl⟩ := Option.map_eq_some_iff.mp h
    have hc := List.find?_some hfind
    simp only [Bool.and_eq_true, decide_eq_true_eq] at hc
    unfold CodePoint at *
    omega

end Callboard.Text
