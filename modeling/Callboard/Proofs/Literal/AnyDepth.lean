import Callboard.Proofs.Literal.Acceptance

/-!
# Literals of any depth

The grammar without its limit: a text denotes a value if it does so with some number of
levels. More levels do no harm, so that the items of one container can be given the
same number, and what holds for one level holds without counting them.
-/

set_option autoImplicit false

namespace Callboard.Literal

open Text

section
variable {D E : Text → Value → Prop}

theorem Items.imp (himp : ∀ t v, D t v → E t v) {t : Text} {vs : List Value} (h : Items D t vs) :
    Items E t vs := by
  induction h with
  | empty hb => exact .empty hb
  | last ha ht hb => exact .last ha (himp _ _ ht) hb
  | more ha ht hb _ ih => exact .more ha (himp _ _ ht) hb ih

theorem Pair.imp (himp : ∀ t v, D t v → E t v) {t : Text} {p : Text × Value} (h : Pair D t p) :
    Pair E t p := by
  cases h with
  | mk ha hs hb hc ht hd => exact .mk ha hs hb hc (himp _ _ ht) hd

theorem Pairs.imp (himp : ∀ t v, D t v → E t v) {t : Text} {ps : List (Text × Value)}
    (h : Pairs D t ps) : Pairs E t ps := by
  induction h with
  | empty hb => exact .empty hb
  | last ht => exact .last (ht.imp himp)
  | more ht _ ih => exact .more (ht.imp himp) ih

theorem Over.imp (himp : ∀ t v, D t v → E t v) {t : Text} {v : Value} (h : Over D t v) :
    Over E t v := by
  cases h with
  | text h => exact .text h
  | int h hi hl => exact .int h hi hl
  | float h hf => exact .float h hf
  | word h => exact .word h
  | list h => exact .list (h.imp himp)
  | mapping h => exact .mapping (h.imp himp)

end

theorem Denotes.mono {levels more : Nat} (hle : levels ≤ more) {t : Text} {v : Value}
    (h : Denotes levels t v) : Denotes more t v := by
  induction levels generalizing more t v with
  | zero => exact h.elim
  | succ levels ih =>
    cases more with
    | zero => omega
    | succ more => exact Over.imp (fun _ _ => ih (by omega)) h

def Denoted (t : Text) (v : Value) : Prop := ∃ levels, Denotes levels t v

def AnyDocument (t : Text) (v : Value) : Prop :=
  ∃ a body b, t = a ++ (body ++ b) ∧ Blanks a ∧ Denoted body v ∧ Blanks b

theorem Denoted.opens {t : Text} {v : Value} (h : Denoted t v) : Opens t := by
  obtain ⟨levels, h⟩ := h
  exact h.opens

theorem Items.bounded {t : Text} {vs : List Value} (h : Items Denoted t vs) :
    ∃ levels, Items (Denotes levels) t vs := by
  induction h with
  | empty hb => exact ⟨0, .empty hb⟩
  | last ha ht hb =>
    obtain ⟨levels, ht⟩ := ht
    exact ⟨levels, .last ha ht hb⟩
  | more ha ht hb _ ih =>
    obtain ⟨m, ht⟩ := ht
    obtain ⟨n, hr⟩ := ih
    have hr := hr.imp (fun _ _ => Denotes.mono (Nat.le_max_right m n))
    exact ⟨max m n, .more ha (ht.mono (Nat.le_max_left m n)) hb hr⟩

theorem Pair.bounded {t : Text} {p : Text × Value} (h : Pair Denoted t p) :
    ∃ levels, Pair (Denotes levels) t p := by
  cases h with
  | mk ha hs hb hc ht hd =>
    obtain ⟨levels, ht⟩ := ht
    exact ⟨levels, .mk ha hs hb hc ht hd⟩

theorem Pairs.bounded {t : Text} {ps : List (Text × Value)} (h : Pairs Denoted t ps) :
    ∃ levels, Pairs (Denotes levels) t ps := by
  induction h with
  | empty hb => exact ⟨0, .empty hb⟩
  | last ht =>
    obtain ⟨levels, ht⟩ := ht.bounded
    exact ⟨levels, .last ht⟩
  | more ht _ ih =>
    obtain ⟨m, ht⟩ := ht.bounded
    obtain ⟨n, hr⟩ := ih
    have ht := ht.imp (fun _ _ => Denotes.mono (Nat.le_max_left m n))
    have hr := hr.imp (fun _ _ => Denotes.mono (Nat.le_max_right m n))
    exact ⟨max m n, .more ht hr⟩

/-- A value whose items are values is a value: it takes one level more than they do. -/
theorem denoted_iff_over {t : Text} {v : Value} : Denoted t v ↔ Over Denoted t v := by
  constructor
  · rintro ⟨levels, h⟩
    cases levels with
    | zero => exact h.elim
    | succ levels => exact Over.imp (fun _ _ h => ⟨levels, h⟩) h
  · intro h
    cases h with
    | text h => exact ⟨1, .text h⟩
    | int h hi hl => exact ⟨1, .int h hi hl⟩
    | float h hf => exact ⟨1, .float h hf⟩
    | word h => exact ⟨1, .word h⟩
    | list h =>
      obtain ⟨levels, h⟩ := h.bounded
      exact ⟨levels + 1, .list h⟩
    | mapping h =>
      obtain ⟨levels, h⟩ := h.bounded
      exact ⟨levels + 1, .mapping h⟩

end Callboard.Literal
