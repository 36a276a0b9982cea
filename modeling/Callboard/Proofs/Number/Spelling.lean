import Callboard.Number.Numeral

/-!
# How numerals are spelled

A numeral token is a sign, digits with an optional point, and an optional power
of ten. The scanner takes exactly the tokens: what it takes is one, and it takes
a whole token when nothing follows that could belong to it.
-/

set_option autoImplicit false

namespace Callboard.Numeral

open Text

/-- Digits of any script, with their values. -/
inductive DigitRun : Text → List Nat → Prop where
  | nil : DigitRun [] []
  | cons {c : CodePoint} {d : Nat} {t : Text} {ds : List Nat} (hd : digit? c = some d)
      (h : DigitRun t ds) : DigitRun (c :: t) (d :: ds)

inductive Sign : Text → Bool → Prop where
  | absent : Sign [] false
  | plus : Sign [plus] false
  | minus : Sign [minus] true

/-- The digits in front of the point, and those behind it if there is a point. One
of the two has to have a digit. -/
inductive Places : Text → List Nat → Option (List Nat) → Prop where
  | whole {t : Text} {ds : List Nat} (h : DigitRun t ds) (hne : ds ≠ []) : Places t ds none
  | point {t u : Text} {ds fs : List Nat} (h : DigitRun t ds) (hne : ds ≠ [])
      (hf : DigitRun u fs) : Places (t ++ dot :: u) ds (some fs)
  | bare {u : Text} {fs : List Nat} (hf : DigitRun u fs) (hne : fs ≠ []) :
      Places (dot :: u) [] (some fs)

inductive Power : Text → Option (Bool × List Nat) → Prop where
  | absent : Power [] none
  | present {mark : CodePoint} {s t : Text} {negative : Bool} {ds : List Nat}
      (hm : mark = 0x65 ∨ mark = 0x45) (hs : Sign s negative) (ht : DigitRun t ds)
      (hne : ds ≠ []) : Power (mark :: (s ++ t)) (some (negative, ds))

inductive Spells : Text → Numeral → Prop where
  | mk {s m p : Text} {negative : Bool} {whole : List Nat} {fraction : Option (List Nat)}
      {power : Option (Bool × List Nat)} (hs : Sign s negative) (hm : Places m whole fraction)
      (hp : Power p power) : Spells (s ++ (m ++ p)) ⟨negative, whole, fraction, power⟩

/-- Nothing at the front of `rest` can belong to a numeral. -/
def Closed (rest : Text) : Prop :=
  ∀ c ∈ rest.head?, digit? c = none ∧ c ≠ dot ∧ isExponentMark c = false

theorem digit?_eq_none_of_lt {c : Nat} (hc : c < 0x30) : digit? c = none := by
  have h1 : c < 0x80 := by omega
  have h2 : isAsciiDigit c = false := by simp [isAsciiDigit, Nat.not_le.mpr hc]
  simp [digit?, h1, h2]

theorem digit?_dot : digit? dot = none := digit?_eq_none_of_lt (by decide)

theorem digit?_of_exponentMark {c : CodePoint} (hc : c = 0x65 ∨ c = 0x45) : digit? c = none := by
  rcases hc with rfl | rfl <;> decide

theorem scanDigits_sound (s : Text) :
    ∃ t, s = t ++ (scanDigits s).2 ∧ DigitRun t (scanDigits s).1 ∧
      ∀ c ∈ (scanDigits s).2.head?, digit? c = none := by
  induction s with
  | nil => exact ⟨[], rfl, .nil, by simp [scanDigits]⟩
  | cons c r ih =>
    obtain ⟨t, ht, hrun, hstop⟩ := ih
    cases hd : digit? c with
    | none =>
      refine ⟨[], ?_, ?_, ?_⟩
      · simp [scanDigits, hd]
      · simpa [scanDigits, hd] using DigitRun.nil
      · simp [scanDigits, hd]
    | some d =>
      refine ⟨c :: t, ?_, ?_, ?_⟩
      · simpa [scanDigits, hd] using ht
      · simpa [scanDigits, hd] using DigitRun.cons hd hrun
      · simpa [scanDigits, hd] using hstop

theorem scanDigits_run {t : Text} {ds : List Nat} (h : DigitRun t ds) {rest : Text}
    (hrest : ∀ c ∈ rest.head?, digit? c = none) : scanDigits (t ++ rest) = (ds, rest) := by
  induction h with
  | nil =>
    cases rest with
    | nil => rfl
    | cons c r => simp [scanDigits, hrest c (by simp)]
  | cons hd h ih => simp [scanDigits, hd, ih]

theorem DigitRun.head {t : Text} {ds : List Nat} (h : DigitRun t ds) (hne : ds ≠ []) :
    ∃ c d r, t = c :: r ∧ digit? c = some d := by
  cases h with
  | nil => exact absurd rfl hne
  | cons hd _ => exact ⟨_, _, _, rfl, hd⟩

theorem DigitRun.digit_of_mem {t : Text} {ds : List Nat} (h : DigitRun t ds) {c : CodePoint}
    (hc : c ∈ t) : ∃ d, digit? c = some d := by
  induction h with
  | nil => simp at hc
  | cons hd _ ih =>
    rcases List.mem_cons.mp hc with rfl | hc
    · exact ⟨_, hd⟩
    · exact ih hc

theorem scanSign_sound (s : Text) : ∃ t, s = t ++ (scanSign s).2 ∧ Sign t (scanSign s).1 := by
  fun_cases scanSign s with
  | case1 r => exact ⟨[plus], rfl, .plus⟩
  | case2 r => exact ⟨[minus], rfl, .minus⟩
  | case3 => exact ⟨[], rfl, .absent⟩

theorem scanSign_append {t : Text} {negative : Bool} (h : Sign t negative) {rest : Text}
    (hrest : ∀ c ∈ rest.head?, c ≠ plus ∧ c ≠ minus) : scanSign (t ++ rest) = (negative, rest) := by
  cases h with
  | plus => rfl
  | minus => rfl
  | absent =>
    cases rest with
    | nil => rfl
    | cons c r =>
      have hc := hrest c (by simp)
      simp [scanSign, hc.1, hc.2]

theorem ne_sign_of_digit {c : CodePoint} {d : Nat} (h : digit? c = some d) :
    c ≠ plus ∧ c ≠ minus := by
  constructor
  · rintro rfl
    rw [digit?_eq_none_of_lt (by decide)] at h
    cases h
  · rintro rfl
    rw [digit?_eq_none_of_lt (by decide)] at h
    cases h

theorem scanPower_sound (s : Text) :
    ∃ t, s = t ++ (scanPower s).2 ∧ Power t (scanPower s).1 := by
  cases s with
  | nil => exact ⟨[], rfl, .absent⟩
  | cons c r =>
    obtain ⟨s, hs, hsign⟩ := scanSign_sound r
    obtain ⟨t, ht, hrun, -⟩ := scanDigits_sound (scanSign r).2
    by_cases hc : isExponentMark c = true
    · cases hd : scanDigits (scanSign r).2 with
      | mk ds rest =>
        rw [hd] at ht hrun
        cases ds with
        | nil => exact ⟨[], by simp [scanPower, hc, hd], by simpa [scanPower, hc, hd] using Power.absent⟩
        | cons d ds =>
          have hm : c = 0x65 ∨ c = 0x45 := by simpa [isExponentMark] using hc
          refine ⟨c :: (s ++ t), ?_, ?_⟩
          · simp only [scanPower, hc, hd, if_true, List.cons_append, List.append_assoc]
            rw [← ht, ← hs]
          · simpa [scanPower, hc, hd] using Power.present hm hsign hrun (by simp)
    · exact ⟨[], by simp [scanPower, hc], by simpa [scanPower, hc] using Power.absent⟩

theorem scanPower_append {p : Text} {power : Option (Bool × List Nat)} (h : Power p power)
    {rest : Text} (hrest : Closed rest) : scanPower (p ++ rest) = (power, rest) := by
  have hstop : ∀ c ∈ rest.head?, digit? c = none := fun c hc => (hrest c hc).1
  cases h with
  | absent =>
    cases rest with
    | nil => rfl
    | cons c r => simp [scanPower, (hrest c (by simp)).2.2]
  | @present mark s t negative ds hm hs ht hne =>
    have hmark : isExponentMark mark = true := by simpa [isExponentMark] using hm
    obtain ⟨c, d, r, rfl, hc⟩ := ht.head hne
    have hsign : scanSign (s ++ (c :: r ++ rest)) = (negative, c :: r ++ rest) :=
      scanSign_append hs (by simpa using ne_sign_of_digit hc)
    have hrun := scanDigits_run ht hstop
    obtain ⟨e, es, rfl⟩ := List.exists_cons_of_ne_nil hne
    simp only [scanPower, List.cons_append, List.append_assoc, hmark, if_true]
    simp only [List.cons_append] at hsign hrun
    rw [hsign]
    simp only [hrun]

theorem scan?_sound {s rest : Text} {n : Numeral} (h : scan? s = some (n, rest)) :
    ∃ t, s = t ++ rest ∧ Spells t n := by
  obtain ⟨a, ha, hsign⟩ := scanSign_sound s
  obtain ⟨b, hb, hrun, -⟩ := scanDigits_sound (scanSign s).2
  unfold scan? at h
  simp only at h
  split at h
  · -- no digit in front of the point
    next s₂ hd =>
    rw [hd] at hb hrun
    obtain ⟨u, hu, hfraction, -⟩ := scanDigits_sound s₂
    split at h
    · simp at h
    · next d ds s₃ hd' =>
      rw [hd'] at hu hfraction
      obtain ⟨p, hp, hpower⟩ := scanPower_sound s₃
      simp only [Option.some.injEq, Prod.mk.injEq] at h
      obtain ⟨rfl, rfl⟩ := h
      cases hrun
      refine ⟨a ++ (dot :: u ++ p), ?_, .mk hsign (.bare hfraction (by simp)) hpower⟩
      rw [ha, hb, hu, hp]
      simp [← hp]
  · simp at h
  · next d ds s₂ hd =>
    rw [hd] at hb hrun
    obtain ⟨u, hu, hfraction, -⟩ := scanDigits_sound s₂
    obtain ⟨p, hp, hpower⟩ := scanPower_sound (scanDigits s₂).2
    simp only [Option.some.injEq, Prod.mk.injEq] at h
    obtain ⟨rfl, rfl⟩ := h
    refine ⟨a ++ ((b ++ dot :: u) ++ p), ?_, .mk hsign (.point hrun (by simp) hfraction) hpower⟩
    calc s = a ++ (b ++ dot :: (u ++ (p ++ (scanPower (scanDigits s₂).2).2))) := by
          rw [← hp, ← hu, ← hb, ← ha]
      _ = _ := by simp
  · next d ds s₂ _ hd =>
    rw [hd] at hb hrun
    obtain ⟨p, hp, hpower⟩ := scanPower_sound s₂
    simp only [Option.some.injEq, Prod.mk.injEq] at h
    obtain ⟨rfl, rfl⟩ := h
    refine ⟨a ++ (b ++ p), ?_, .mk hsign (.whole hrun (by simp)) hpower⟩
    calc s = a ++ (b ++ (p ++ (scanPower s₂).2)) := by rw [← hp, ← hb, ← ha]
      _ = _ := by simp

/-- Nothing that follows a numeral without a point can be taken for its point. -/
theorem scan?_of_no_point {s s₁ s₂ : Text} {negative : Bool} {d : Nat} {ds : List Nat}
    (hs : scanSign s = (negative, s₁)) (hd : scanDigits s₁ = (d :: ds, s₂))
    (hdot : ∀ c ∈ s₂.head?, c ≠ dot) :
    scan? s = some (⟨negative, d :: ds, none, (scanPower s₂).1⟩, (scanPower s₂).2) := by
  unfold scan?
  rw [hs]
  simp only [hd]
  split
  · next h => simp at h
  · next h => simp at h
  · next h =>
    simp only [Prod.mk.injEq] at h
    exact absurd rfl (hdot dot (by simp [h.2]))
  · next h =>
    simp only [Prod.mk.injEq, List.cons.injEq] at h
    obtain ⟨⟨rfl, rfl⟩, rfl⟩ := h
    rfl

theorem Spells.scan? {t : Text} {n : Numeral} (h : Spells t n) {rest : Text}
    (hrest : Closed rest) : scan? (t ++ rest) = some (n, rest) := by
  obtain ⟨hs, hm, hp⟩ := h
  next s m p negative whole fraction power =>
  have hpower := scanPower_append hp hrest
  have hclosed : ∀ c ∈ (p ++ rest).head?, digit? c = none ∧ c ≠ dot := by
    cases hp with
    | absent => exact fun c hc => ⟨(hrest c hc).1, (hrest c hc).2.1⟩
    | present hmark _ _ _ =>
      intro c hc
      obtain rfl : _ = c := by simpa using hc
      exact ⟨digit?_of_exponentMark hmark, by rcases hmark with rfl | rfl <;> decide⟩
  have hstop : ∀ c ∈ (p ++ rest).head?, digit? c = none := fun c hc => (hclosed c hc).1
  rw [List.append_assoc, List.append_assoc]
  cases hm with
  | whole h hne =>
    have hrun := scanDigits_run h hstop
    obtain ⟨c, e, r, rfl, hc⟩ := h.head hne
    have hsign : scanSign (s ++ (c :: r ++ (p ++ rest))) = (negative, c :: r ++ (p ++ rest)) :=
      scanSign_append hs (by simpa using ne_sign_of_digit hc)
    obtain ⟨d, ds, rfl⟩ := List.exists_cons_of_ne_nil hne
    rw [scan?_of_no_point hsign hrun (fun c hc => (hclosed c hc).2), hpower]
  | @point t u whole fs h hne hf =>
    have hrun : scanDigits (t ++ dot :: (u ++ (p ++ rest))) =
        (whole, dot :: (u ++ (p ++ rest))) :=
      scanDigits_run h (by simpa using digit?_dot)
    have hfraction := scanDigits_run hf hstop
    obtain ⟨c, e, r, rfl, hc⟩ := h.head hne
    have hsign : scanSign (s ++ (c :: r ++ dot :: (u ++ (p ++ rest)))) =
        (negative, c :: r ++ dot :: (u ++ (p ++ rest))) :=
      scanSign_append hs (by simpa using ne_sign_of_digit hc)
    obtain ⟨d, ds, rfl⟩ := List.exists_cons_of_ne_nil hne
    have hassoc : (c :: r ++ dot :: u) ++ (p ++ rest) = c :: r ++ dot :: (u ++ (p ++ rest)) := by
      simp
    rw [hassoc]
    unfold Numeral.scan?
    rw [hsign]
    simp only [hrun, hfraction, hpower]
  | @bare u fs hf hne =>
    have hdot : ∀ c ∈ (dot :: (u ++ (p ++ rest))).head?, c ≠ plus ∧ c ≠ minus := by
      intro c hc
      obtain rfl : dot = c := by simpa using hc
      decide
    have hsign := scanSign_append hs hdot
    have hnone : scanDigits (dot :: (u ++ (p ++ rest))) = ([], dot :: (u ++ (p ++ rest))) := by
      simp [scanDigits, digit?_dot]
    have hfraction := scanDigits_run hf hstop
    obtain ⟨d, ds, rfl⟩ := List.exists_cons_of_ne_nil hne
    rw [List.cons_append]
    unfold Numeral.scan?
    rw [hsign]
    simp only [hnone, hfraction, hpower]

theorem scan?_of_digit {s r : Text} {negative : Bool} {c : CodePoint} {d : Nat}
    (hs : scanSign s = (negative, c :: r)) (hc : digit? c = some d) :
    scan? s ≠ none := by
  unfold scan?
  rw [hs]
  have hdigits : scanDigits (c :: r) =
      (d :: (scanDigits r).1, (scanDigits r).2) := by
    simp [scanDigits, hc]
  simp only [hdigits]
  split
  · next h => simp at h
  · next h => simp at h
  · simp
  · simp

theorem scan?_of_dot {s r : Text} {negative : Bool} {c : CodePoint} {d : Nat}
    (hs : scanSign s = (negative, dot :: c :: r)) (hc : digit? c = some d) :
    scan? s ≠ none := by
  unfold scan?
  rw [hs]
  have hnone : scanDigits (dot :: c :: r) = ([], dot :: c :: r) := by
    simp [scanDigits, digit?_dot]
  have hdigits : scanDigits (c :: r) =
      (d :: (scanDigits r).1, (scanDigits r).2) := by
    simp [scanDigits, hc]
  simp only [hnone, hdigits]
  simp

theorem Spells.scan?_ne_none {t : Text} {n : Numeral} (h : Spells t n) (rest : Text) :
    Numeral.scan? (t ++ rest) ≠ none := by
  obtain ⟨hs, hm, hp⟩ := h
  rw [List.append_assoc, List.append_assoc]
  cases hm with
  | whole hrun hne =>
    obtain ⟨c, d, r, rfl, hc⟩ := hrun.head hne
    exact scan?_of_digit (scanSign_append hs (by simpa using ne_sign_of_digit hc)) hc
  | point hrun hne _ =>
    obtain ⟨c, d, r, rfl, hc⟩ := hrun.head hne
    exact scan?_of_digit (scanSign_append hs (by simpa using ne_sign_of_digit hc)) hc
  | bare hrun hne =>
    obtain ⟨c, d, r, rfl, hc⟩ := hrun.head hne
    exact scan?_of_dot (scanSign_append hs (by simp [dot, plus, minus])) hc

theorem Sign.mem {s : Text} {negative : Bool} (h : Sign s negative) {c : CodePoint}
    (hc : c ∈ s) : c = Text.plus ∨ c = Text.minus := by
  cases h with
  | absent => simp at hc
  | plus => exact .inl (by simpa using hc)
  | minus => exact .inr (by simpa using hc)

theorem Spells.mem {t : Text} {n : Numeral} (h : Spells t n) {c : CodePoint} (hc : c ∈ t) :
    (∃ d, digit? c = some d) ∨ c ∈ [plus, minus, dot, 0x65, 0x45] := by
  obtain ⟨hs, hm, hp⟩ := h
  rcases List.mem_append.mp hc with hc | hc
  · rcases hs.mem hc with rfl | rfl <;> simp
  rcases List.mem_append.mp hc with hc | hc
  · cases hm with
    | whole h _ => exact .inl (h.digit_of_mem hc)
    | point h _ hf =>
      rcases List.mem_append.mp hc with hc | hc
      · exact .inl (h.digit_of_mem hc)
      rcases List.mem_cons.mp hc with rfl | hc
      · simp
      · exact .inl (hf.digit_of_mem hc)
    | bare hf _ =>
      rcases List.mem_cons.mp hc with rfl | hc
      · simp
      · exact .inl (hf.digit_of_mem hc)
  · cases hp with
    | absent => simp at hc
    | present hmark hs ht _ =>
      rcases List.mem_cons.mp hc with rfl | hc
      · rcases hmark with rfl | rfl <;> simp
      rcases List.mem_append.mp hc with hc | hc
      · rcases hs.mem hc with rfl | rfl <;> simp
      · exact .inl (ht.digit_of_mem hc)

theorem Spells.head {t : Text} {n : Numeral} (h : Spells t n) :
    ∃ c r, t = c :: r ∧ ((∃ d, digit? c = some d) ∨ c ∈ [plus, minus, dot]) := by
  obtain ⟨hs, hm, hp⟩ := h
  cases hs with
  | plus => exact ⟨plus, _, rfl, by simp⟩
  | minus => exact ⟨minus, _, rfl, by simp⟩
  | absent =>
    cases hm with
    | whole h hne =>
      obtain ⟨c, d, r, rfl, hc⟩ := h.head hne
      exact ⟨c, _, rfl, .inl ⟨d, hc⟩⟩
    | point h hne _ =>
      obtain ⟨c, d, r, rfl, hc⟩ := h.head hne
      exact ⟨c, _, rfl, .inl ⟨d, hc⟩⟩
    | bare _ _ => exact ⟨dot, _, rfl, by simp⟩

def Integral (t : Text) : Prop := dot ∉ t ∧ 0x65 ∉ t ∧ 0x45 ∉ t

theorem DigitRun.integral {t : Text} {ds : List Nat} (h : DigitRun t ds) : Integral t := by
  have hno : ∀ c, digit? c = none → c ∉ t := by
    intro c hnone hc
    obtain ⟨d, hd⟩ := h.digit_of_mem hc
    simp [hnone] at hd
  exact ⟨hno _ digit?_dot, hno _ (digit?_of_exponentMark (.inl rfl)),
    hno _ (digit?_of_exponentMark (.inr rfl))⟩

theorem Spells.isInteger_iff {t : Text} {n : Numeral} (h : Spells t n) :
    n.isInteger = true ↔ Integral t := by
  obtain ⟨hs, hm, hp⟩ := h
  next s m p negative whole fraction power =>
  have hsign : Integral s :=
    ⟨fun hc => absurd (hs.mem hc) (by decide), fun hc => absurd (hs.mem hc) (by decide),
      fun hc => absurd (hs.mem hc) (by decide)⟩
  cases hp with
  | present hmark _ _ _ =>
    refine iff_of_false (by simp [isInteger]) (fun hi => ?_)
    rcases hmark with rfl | rfl
    · exact hi.2.1 (by simp)
    · exact hi.2.2 (by simp)
  | absent =>
    cases hm with
    | whole h _ =>
      have hm := h.integral
      simp_all [isInteger, Integral]
    | point _ _ _ => exact iff_of_false (by simp [isInteger]) (fun hi => hi.1 (by simp))
    | bare _ _ => exact iff_of_false (by simp [isInteger]) (fun hi => hi.1 (by simp))

end Callboard.Numeral
