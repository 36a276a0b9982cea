import Callboard.Invocation.Casual
import Callboard.Proofs.Text.Span

/-!
# Texts that normalization leaves alone

A calm text holds no apostrophe, no newline, and no separator with a key behind it.
Whether a key is ahead is decided in front of the first code point that no key can
hold, so calm texts stay calm when such code points join them.
-/

set_option autoImplicit false

namespace Callboard.Text

def Stops (c : CodePoint) : Prop :=
  isBlank c = false ∧ isIdentifierPart c = false ∧ c ≠ colon ∧ c ≠ apostrophe

instance (c : CodePoint) : Decidable (Stops c) := inferInstanceAs (Decidable (_ ∧ _ ∧ _ ∧ _))

theorem isIdentifierStart_of_part {c : CodePoint} (h : isIdentifierPart c = false) :
    isIdentifierStart c = false := by
  simp only [isIdentifierPart, Bool.or_eq_false_iff] at h
  exact h.1

theorem Stops.opens_nothing {c : CodePoint} (hc : Stops c) (b : Text) : keyAhead? (c :: b) = none := by
  simp [keyAhead?, skipBlank_cons_of_not_blank hc.1, isIdentifierStart_of_part hc.2.1]

theorem keyAhead?_append_stop (a : Text) {c : CodePoint} (hc : Stops c) (b : Text) :
    keyAhead? (a ++ c :: b) = keyAhead? a := by
  obtain ⟨hblank, hpart, hcolon, -⟩ := hc
  have hskip : skipBlank (a ++ c :: b) = skipBlank a ++ c :: b := dropWhile_append_stop a hblank b
  unfold keyAhead?
  rw [hskip, takeWhile_append_stop a hblank]
  cases skipBlank a with
  | nil =>
    -- nothing but blanks in front of the stop, and no identifier begins with it
    simp [isIdentifierStart_of_part hpart]
  | cons x r =>
    have hbehind : skipBlank ((r ++ c :: b).dropWhile isIdentifierPart) =
        skipBlank (r.dropWhile isIdentifierPart) ++ c :: b := by
      rw [dropWhile_append_stop r hpart]
      exact dropWhile_append_stop _ hblank b
    simp only [List.cons_append]
    rw [hbehind, dropWhile_append_stop r hpart, takeWhile_append_stop r hpart,
      takeWhile_append_stop _ hblank]
    cases skipBlank (r.dropWhile isIdentifierPart) with
    | nil => simp [hcolon]
    | cons y s =>
      by_cases hy : y = colon
      · simp [hy]
      · simp [hy]

/-- Texts that are the same up to code points that no key can hold. -/
def SameToStop (r r' : Text) : Prop :=
  r' = r ∨ ∃ a b b' c c', Stops c ∧ Stops c' ∧ r = a ++ c :: b ∧ r' = a ++ c' :: b'

theorem SameToStop.cons (x : CodePoint) {r r' : Text} (h : SameToStop r r') :
    SameToStop (x :: r) (x :: r') := by
  rcases h with rfl | ⟨a, b, b', c, c', hc, hc', rfl, rfl⟩
  · exact .inl rfl
  · exact .inr ⟨x :: a, b, b', c, c', hc, hc', rfl, rfl⟩

theorem SameToStop.keyAhead? {r r' : Text} (h : SameToStop r r') : keyAhead? r' = keyAhead? r := by
  rcases h with rfl | ⟨a, b, b', c, c', hc, hc', rfl, rfl⟩
  · rfl
  · rw [keyAhead?_append_stop a hc, keyAhead?_append_stop a hc']

theorem keyAhead?_skipBlank {a b : Text} (h : skipBlank a = skipBlank b) (hb : keyAhead? b = none) :
    keyAhead? a = none := by
  unfold keyAhead? at *
  rw [h]
  split
  · rfl
  · next c r hskip =>
    rw [hskip] at hb
    simp only at hb ⊢
    split
    · next hc =>
      rw [if_pos hc] at hb
      split
      · next hcolon => simp [hcolon] at hb
      · rfl
    · rfl

def KeyFree : Text → Prop
  | [] => True
  | c :: r => (opensKey c = true → keyAhead? r = none) ∧ KeyFree r

instance KeyFree.decidable : (t : Text) → Decidable (KeyFree t)
  | [] => inferInstanceAs (Decidable True)
  | _ :: r =>
    have := KeyFree.decidable r
    inferInstanceAs (Decidable (_ ∧ _))

theorem keyFree_append_stop (a : Text) {c : CodePoint} (hc : Stops c) (b : Text) :
    KeyFree (a ++ c :: b) ↔ KeyFree a ∧ KeyFree (c :: b) := by
  induction a with
  | nil => simp [KeyFree]
  | cons x a ih =>
    have hahead : keyAhead? (a ++ c :: b) = keyAhead? a := keyAhead?_append_stop a hc b
    show (opensKey x = true → keyAhead? (a ++ c :: b) = none) ∧ KeyFree (a ++ c :: b) ↔
      ((opensKey x = true → keyAhead? a = none) ∧ KeyFree a) ∧ KeyFree (c :: b)
    rw [hahead, ih, and_assoc]

theorem keyFree_append {a b : Text} (ha : ∀ c ∈ a, opensKey c = false) (hb : KeyFree b) :
    KeyFree (a ++ b) := by
  induction a with
  | nil => exact hb
  | cons c a ih =>
    have hc := ha c (by simp)
    exact ⟨by simp [hc], ih (fun d hd => ha d (List.mem_cons_of_mem c hd))⟩

theorem keyFree_of_no_separator {t : Text} (h : ∀ c ∈ t, opensKey c = false) : KeyFree t := by
  rw [← List.append_nil t]
  exact keyFree_append h trivial

end Callboard.Text

namespace Callboard.Invocation

open Text

structure Calm (t : Text) : Prop where
  no_apostrophe : apostrophe ∉ t
  no_newline : newline ∉ t
  keyFree : KeyFree t

theorem quoteKeysFrom_of_keyFree {t : Text} (h : KeyFree t) : quoteKeysFrom 0 t = t := by
  induction t with
  | nil => rfl
  | cons c r ih =>
    obtain ⟨hc, hr⟩ := h
    rw [quoteKeysFrom, ih hr]
    by_cases hopens : opensKey c = true
    · rw [if_pos hopens, hc hopens]
    · rw [if_neg hopens]

theorem straightenQuotes_eq {t : Text} (h : apostrophe ∉ t) : straightenQuotes t = t := by
  induction t with
  | nil => rfl
  | cons c r ih =>
    simp only [List.mem_cons, not_or] at h
    have hr := ih h.2
    simp only [straightenQuotes, List.map_cons] at hr ⊢
    rw [hr, if_neg (Ne.symm h.1)]

theorem Calm.normalize {t : Text} (h : Calm t) : normalize t = t := by
  rw [Invocation.normalize, quoteKeys, straightenQuotes_eq h.no_apostrophe,
    quoteKeysFrom_of_keyFree h.keyFree]

theorem Calm.nil : Calm [] := ⟨by simp, by simp, trivial⟩

/-- Calm texts around a code point that no key can hold. If the code point introduces
keys, none may be ahead behind it. -/
theorem Calm.glue {a b : Text} {c : CodePoint} (ha : Calm a) (hc : Stops c) (hb : Calm b)
    (hahead : opensKey c = true → keyAhead? b = none) : Calm (a ++ c :: b) := by
  obtain ⟨hblank, hpart, hcolon, happ⟩ := hc
  have hnewline : newline ≠ c := by
    rintro rfl
    cases hblank
  constructor
  · simp [ha.no_apostrophe, hb.no_apostrophe, Ne.symm happ]
  · simp [ha.no_newline, hb.no_newline, hnewline]
  · exact (keyFree_append_stop a ⟨hblank, hpart, hcolon, happ⟩ b).mpr
      ⟨ha.keyFree, hahead, hb.keyFree⟩

/-- A calm text that does not begin with a key either may stand behind a separator. -/
structure Quiet (t : Text) : Prop extends Calm t where
  no_key : keyAhead? t = none

theorem Quiet.glue {a b : Text} {c : CodePoint} (ha : Quiet a) (hc : Stops c) (hb : Calm b)
    (hahead : opensKey c = true → keyAhead? b = none) : Quiet (a ++ c :: b) :=
  ⟨ha.toCalm.glue hc hb hahead, by rw [keyAhead?_append_stop a hc, ha.no_key]⟩

theorem Quiet.nil : Quiet [] := ⟨.nil, rfl⟩

theorem Quiet.append {a b : Text} {c : CodePoint} (ha : Quiet (a ++ [c])) (hc : Stops c)
    (hopens : opensKey c = false) (hb : Calm b) : Quiet (a ++ c :: b) := by
  have happ := ha.no_apostrophe
  have hnew := ha.no_newline
  have hfree := (keyFree_append_stop a hc []).mp ha.keyFree
  have hkey := ha.no_key
  rw [List.mem_append, not_or] at happ hnew
  rw [keyAhead?_append_stop a hc] at hkey
  have hcalm : Calm a := ⟨happ.1, hnew.1, hfree.1⟩
  have hquiet : Quiet a := ⟨hcalm, hkey⟩
  exact hquiet.glue hc hb (fun h => by simp [hopens] at h)

theorem Calm.cons {c : CodePoint} {t : Text} (hc : c ≠ apostrophe ∧ c ≠ newline ∧ opensKey c = false)
    (h : Calm t) : Calm (c :: t) := by
  obtain ⟨happ, hnew, hopens⟩ := hc
  constructor
  · exact List.not_mem_cons_of_ne_of_not_mem (Ne.symm happ) h.no_apostrophe
  · exact List.not_mem_cons_of_ne_of_not_mem (Ne.symm hnew) h.no_newline
  · exact ⟨fun hc => by simp [hopens] at hc, h.keyFree⟩

theorem Quiet.behind_space {t : Text} (h : Quiet t) : Quiet (space :: t) := by
  have hskip : skipBlank ([space] ++ t) = skipBlank t := skipBlank_append_blank (by decide) t
  exact ⟨h.toCalm.cons (by decide), keyAhead?_skipBlank hskip h.no_key⟩

theorem Quiet.append_item {a b : Text} (ha : Quiet a) (hb : Quiet b) :
    Quiet (a ++ chars ", " ++ b) := by
  have h : Quiet (a ++ comma :: space :: b) :=
    ha.glue (by decide) hb.behind_space.toCalm (fun _ => hb.behind_space.no_key)
  rw [List.append_assoc]
  exact h

theorem Quiet.enclosed {t : Text} {a b : CodePoint} (ha : Stops a) (hb : Stops b)
    (hopens : opensKey b = false) (h : Quiet t) : Quiet (a :: (t ++ [b])) := by
  have hbehind : Quiet (t ++ b :: []) := h.glue hb .nil (fun hc => by simp [hopens] at hc)
  exact Quiet.nil.glue ha hbehind.toCalm (fun _ => hbehind.no_key)

end Callboard.Invocation
