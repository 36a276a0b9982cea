import Callboard.Proofs.Invocation.Calm

/-!
# Where keys are quoted

A key ahead is an identifier and a colon with blanks in front of each, and nothing else
is one. What normalization makes of a text is decided piece by piece: it may be cut in
front of every code point that no key can hold.
-/

set_option autoImplicit false

namespace Callboard.Text

def Identifier (k : Text) : Prop :=
  ∃ c r, k = c :: r ∧ isIdentifierStart c = true ∧ r.all isIdentifierPart = true

theorem identifier_range {c : Nat} (h : isIdentifierPart c = true) :
    0x30 ≤ c ∧ c ≤ 0x39 ∨ 0x41 ≤ c ∧ c ≤ 0x5A ∨ c = 0x5F ∨ 0x61 ≤ c ∧ c ≤ 0x7A := by
  simp only [isIdentifierPart, isIdentifierStart, isLetter, isLower, isUpper, isAsciiDigit,
    Bool.or_eq_true, Bool.and_eq_true, decide_eq_true_eq, beq_iff_eq, CodePoint, underscore] at h
  omega

theorem part_of_start {c : CodePoint} (h : isIdentifierStart c = true) :
    isIdentifierPart c = true := by
  simp [isIdentifierPart, h]

theorem not_blank_of_part {c : Nat} (h : isIdentifierPart c = true) : isBlank c = false := by
  have hrange := identifier_range h
  simp only [isBlank, Bool.or_eq_false_iff, Bool.and_eq_false_iff, decide_eq_false_iff_not,
    beq_eq_false_iff_ne, CodePoint]
  omega

theorem not_part_of_blank {c : CodePoint} (h : isBlank c = true) : isIdentifierPart c = false := by
  cases hc : isIdentifierPart c with
  | false => rfl
  | true => rw [not_blank_of_part hc] at h; cases h

theorem Identifier.part {k : Text} (h : Identifier k) {c : CodePoint} (hc : c ∈ k) :
    isIdentifierPart c = true := by
  obtain ⟨d, r, rfl, hd, hr⟩ := h
  rcases List.mem_cons.mp hc with rfl | hc
  · exact part_of_start hd
  · exact List.all_eq_true.mp hr c hc

theorem behind_identifier {d r : Text} (hd : d.all isBlank = true) :
    ∀ c ∈ (d ++ colon :: r).head?, isIdentifierPart c = false := by
  intro c hc
  cases d with
  | nil =>
    obtain rfl : colon = c := by simpa using hc
    decide
  | cons x d =>
    obtain rfl : x = c := by simpa using hc
    rw [List.all_cons, Bool.and_eq_true] at hd
    exact not_part_of_blank hd.1

theorem keyAhead?_of_parts {b k d : Text} (hb : b.all isBlank = true) (hk : Identifier k)
    (hd : d.all isBlank = true) (r : Text) :
    keyAhead? (b ++ (k ++ (d ++ colon :: r))) = some ⟨b, k, d⟩ := by
  obtain ⟨c, s, rfl, hc, hs⟩ := hk
  have hblank := not_blank_of_part (part_of_start hc)
  have hskip : skipBlank (b ++ (c :: s ++ (d ++ colon :: r))) = c :: (s ++ (d ++ colon :: r)) :=
    skipBlank_append_cons hb hblank _
  have hfront : (b ++ (c :: s ++ (d ++ colon :: r))).takeWhile isBlank = b :=
    (span_of_all hb (by simp [hblank])).1
  obtain ⟨hname, hafter⟩ := span_of_all hs (behind_identifier (r := r) hd)
  have hcolon : skipBlank (d ++ colon :: r) = colon :: r := skipBlank_append_cons hd (by decide) r
  have hbehind : (d ++ colon :: r).takeWhile isBlank = d := (span_of_all hd (by simp; decide)).1
  unfold keyAhead?
  rw [hskip, hfront]
  simp only [hc, if_true, hname, hafter, hcolon, hbehind]

theorem parts_of_keyAhead? {t : Text} {k : KeyAhead} (h : keyAhead? t = some k) :
    k.before.all isBlank = true ∧ Identifier k.name ∧ k.behind.all isBlank = true ∧
      ∃ r, t = k.before ++ (k.name ++ (k.behind ++ colon :: r)) := by
  unfold keyAhead? at h
  split at h
  · cases h
  next c s hskip =>
  split at h
  · next hc =>
    dsimp only at h
    split at h
    · next r hcolon =>
      obtain rfl := Option.some.inj h
      refine ⟨List.all_takeWhile, ⟨c, _, rfl, hc, List.all_takeWhile⟩, List.all_takeWhile, r, ?_⟩
      have hs := List.takeWhile_append_dropWhile (p := isIdentifierPart) (l := s)
      have hafter := List.takeWhile_append_dropWhile (p := isBlank)
        (l := s.dropWhile isIdentifierPart)
      have ht := List.takeWhile_append_dropWhile (p := isBlank) (l := t)
      rw [show (s.dropWhile isIdentifierPart).dropWhile isBlank = colon :: r from hcolon] at hafter
      rw [show t.dropWhile isBlank = c :: s from hskip] at ht
      rw [hafter, List.cons_append, hs, ht]
    · cases h
  · cases h

theorem keyAhead?_eq_some_iff {t b k d : Text} : keyAhead? t = some ⟨b, k, d⟩ ↔
    b.all isBlank = true ∧ Identifier k ∧ d.all isBlank = true ∧
      ∃ r, t = b ++ (k ++ (d ++ colon :: r)) := by
  constructor
  · exact parts_of_keyAhead?
  · rintro ⟨hb, hk, hd, r, rfl⟩
    exact keyAhead?_of_parts hb hk hd r

theorem keyAhead?_of_not_mem {t : Text} (h : colon ∉ t) : keyAhead? t = none := by
  cases hk : keyAhead? t with
  | none => rfl
  | some k =>
    obtain ⟨-, -, -, r, rfl⟩ := keyAhead?_eq_some_iff.mp hk
    simp at h

theorem keyAhead?_size_le {t : Text} {k : KeyAhead} (h : keyAhead? t = some k) :
    k.size ≤ t.length := by
  obtain ⟨-, -, -, r, rfl⟩ := keyAhead?_eq_some_iff.mp h
  simp only [KeyAhead.size, List.length_append]
  omega

def HoldsKey (t : Text) : Prop :=
  ∃ a c b k d r, t = a ++ c :: (b ++ (k ++ (d ++ colon :: r))) ∧ opensKey c = true ∧
    b.all isBlank = true ∧ Identifier k ∧ d.all isBlank = true

theorem keyFree_iff (t : Text) : KeyFree t ↔ ¬ HoldsKey t := by
  induction t with
  | nil =>
    constructor
    · rintro - ⟨a, c, b, k, d, r, h, -⟩
      simp at h
    · exact fun _ => trivial
  | cons x t ih =>
    show (opensKey x = true → keyAhead? t = none) ∧ KeyFree t ↔ ¬ HoldsKey (x :: t)
    rw [ih]
    constructor
    · rintro ⟨hx, ht⟩ ⟨a, c, b, k, d, r, heq, hc, hb, hk, hd⟩
      cases a with
      | nil =>
        obtain ⟨rfl, rfl⟩ := List.cons.inj heq
        have hkey := hx hc
        rw [keyAhead?_of_parts hb hk hd] at hkey
        cases hkey
      | cons y a => exact ht ⟨a, c, b, k, d, r, (List.cons.inj heq).2, hc, hb, hk, hd⟩
    · intro h
      constructor
      · intro hx
        cases hkey : keyAhead? t with
        | none => rfl
        | some k =>
          obtain ⟨hb, hk, hd, r, rfl⟩ := keyAhead?_eq_some_iff.mp hkey
          exact absurd ⟨[], x, _, _, _, r, rfl, hx, hb, hk, hd⟩ h
      · rintro ⟨a, c, b, k, d, r, rfl, hrest⟩
        exact h ⟨x :: a, c, b, k, d, r, rfl, hrest⟩

end Callboard.Text

namespace Callboard.Invocation

open Text

theorem straightenQuotes_append (a b : Text) :
    straightenQuotes (a ++ b) = straightenQuotes a ++ straightenQuotes b :=
  List.map_append

/-- Code points that are already written are passed over. -/
theorem quoteKeysFrom_length (a b : Text) : quoteKeysFrom a.length (a ++ b) = quoteKeys b := by
  induction a with
  | nil => rfl
  | cons x a ih => exact ih

theorem quoteKeysFrom_append_stop (a : Text) {n : Nat} (hn : n ≤ a.length) {c : CodePoint}
    (hc : Stops c) (b : Text) :
    quoteKeysFrom n (a ++ c :: b) = quoteKeysFrom n a ++ quoteKeys (c :: b) := by
  induction a generalizing n with
  | nil =>
    obtain rfl : n = 0 := Nat.le_zero.mp hn
    rfl
  | cons x a ih =>
    cases n with
    | succ n => exact ih (Nat.le_of_succ_le_succ hn)
    | zero =>
      rw [List.cons_append, quoteKeysFrom, quoteKeysFrom, keyAhead?_append_stop a hc]
      split
      · split
        · next k hk => simp [ih (keyAhead?_size_le hk)]
        · simp [ih (Nat.zero_le _)]
      · simp [ih (Nat.zero_le _)]

theorem quoteKeys_append_stop (a : Text) {c : CodePoint} (hc : Stops c) (b : Text) :
    quoteKeys (a ++ c :: b) = quoteKeys a ++ quoteKeys (c :: b) :=
  quoteKeysFrom_append_stop a (Nat.zero_le _) hc b

theorem quoteKeys_cons {c : CodePoint} {r : Text} (h : opensKey c = true → keyAhead? r = none) :
    quoteKeys (c :: r) = c :: quoteKeys r := by
  rw [quoteKeys, quoteKeysFrom]
  split
  · next hc => rw [h hc]; rfl
  · rfl

/-- A bare key behind a separator is quoted, and the blanks behind it are dropped. -/
theorem quoteKeys_key {c : CodePoint} (hc : opensKey c = true) {b k d : Text}
    (hb : b.all isBlank = true) (hk : Identifier k) (hd : d.all isBlank = true) (r : Text) :
    quoteKeys (c :: (b ++ (k ++ (d ++ colon :: r)))) =
      c :: (b ++ (quote :: (k ++ [quote]) ++ colon :: quoteKeys r)) := by
  have hlength : (KeyAhead.size ⟨b, k, d⟩) = (b ++ (k ++ d)).length := by
    simp [KeyAhead.size, Nat.add_assoc]
  have hassoc : b ++ (k ++ (d ++ colon :: r)) = b ++ (k ++ d) ++ colon :: r := by simp
  have hrest : quoteKeys (colon :: r) = colon :: quoteKeys r :=
    quoteKeys_cons fun h => absurd h (by decide)
  rw [quoteKeys, quoteKeysFrom, if_pos hc, keyAhead?_of_parts hb hk hd r]
  dsimp only
  rw [hlength, hassoc, quoteKeysFrom_length, hrest]
  simp

end Callboard.Invocation
