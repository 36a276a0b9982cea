import Callboard.Invocation.Basic
import Callboard.Proofs.Text.Span

/-!
# The shape of an invocation

A stripped text is an invocation when it is a name without parentheses, or such a name
and a text without newlines between parentheses.
-/

set_option autoImplicit false

namespace Callboard.Text

theorem upTo_eq {sep : CodePoint} {a rest : Text} (h : sep ∉ a)
    (hrest : ∀ c ∈ rest.head?, c = sep) : upTo sep (a ++ rest) = a := by
  have hall : a.all (fun c => c != sep) = true := by
    rw [List.all_eq_true]
    intro c hc
    have hne : c ≠ sep := fun heq => h (heq ▸ hc)
    simpa using hne
  exact (span_of_all hall (fun c hc => by simp [hrest c hc])).1

theorem upTo_of_not_mem {sep : CodePoint} {a : Text} (h : sep ∉ a) : upTo sep a = a := by
  have hup : upTo sep (a ++ []) = a := upTo_eq h (by simp)
  rwa [List.append_nil] at hup

theorem beyond?_append {sep : CodePoint} {a : Text} (h : sep ∉ a) (r : Text) :
    beyond? sep (a ++ sep :: r) = some r := by
  induction a with
  | nil => simp [beyond?]
  | cons c a ih =>
    simp only [List.mem_cons, not_or] at h
    simp [beyond?, Ne.symm h.1, ih h.2]

theorem beyond?_of_not_mem {sep : CodePoint} {a : Text} (h : sep ∉ a) : beyond? sep a = none := by
  induction a with
  | nil => rfl
  | cons c a ih =>
    simp only [List.mem_cons, not_or] at h
    simp [beyond?, Ne.symm h.1, ih h.2]

theorem cut_at (sep : CodePoint) (t : Text) :
    (sep ∉ t) ∨ ∃ a r, sep ∉ a ∧ t = a ++ sep :: r := by
  by_cases h : sep ∈ t
  · obtain ⟨a, r, ht, ha⟩ := List.eq_append_cons_of_mem h
    exact .inr ⟨a, r, ha, ht⟩
  · exact .inl h

end Callboard.Text

namespace Callboard.Invocation

open Text

theorem enclosed?_eq_some_iff {t inside : Text} :
    enclosed? t = some inside ↔ t = inside ++ [closeParen] ∧ newline ∉ inside := by
  constructor
  · intro h
    unfold enclosed? at h
    split at h
    · next r hr =>
      split at h
      · cases h
      next hnew =>
      obtain rfl := Option.some.inj h
      have ht := congrArg List.reverse hr
      rw [List.reverse_reverse, List.reverse_cons] at ht
      exact ⟨ht, by simpa using hnew⟩
    · cases h
  · rintro ⟨rfl, hnew⟩
    simp [enclosed?, hnew]

inductive Shape : Text → Invocation → Prop where
  | bare {name : Text} (hne : name ≠ []) (hp : openParen ∉ name) : Shape name ⟨name, none⟩
  | call {name inside : Text} (hne : name ≠ []) (hp : openParen ∉ name) (hn : newline ∉ inside) :
      Shape (name ++ openParen :: (inside ++ [closeParen])) ⟨name, some inside⟩

theorem split?_eq_some_iff {t : Text} {inv : Invocation} : split? t = some inv ↔ Shape t inv := by
  constructor
  · intro h
    unfold split? at h
    rcases cut_at openParen t with hp | ⟨name, r, hp, rfl⟩
    · rw [upTo_of_not_mem hp, beyond?_of_not_mem hp] at h
      cases t with
      | nil => cases h
      | cons c t =>
        obtain rfl := Option.some.inj h
        exact .bare (by simp) hp
    · rw [upTo_eq hp (by simp), beyond?_append hp] at h
      cases name with
      | nil => cases h
      | cons c name =>
        obtain ⟨inside, hinside, rfl⟩ := Option.map_eq_some_iff.mp h
        obtain ⟨rfl, hnew⟩ := enclosed?_eq_some_iff.mp hinside
        exact .call (by simp) hp hnew
  · intro h
    cases h with
    | @bare name hne hp =>
      obtain ⟨c, r, rfl⟩ := List.exists_cons_of_ne_nil hne
      unfold split?
      rw [upTo_of_not_mem hp, beyond?_of_not_mem hp]
    | @call name inside hne hp hn =>
      obtain ⟨c, r, rfl⟩ := List.exists_cons_of_ne_nil hne
      have hinside := enclosed?_eq_some_iff.mpr ⟨rfl, hn⟩
      unfold split?
      rw [upTo_eq hp (by simp), beyond?_append hp]
      simp only [hinside, Option.map_some]

theorem Shape.name_ne_nil {t : Text} {inv : Invocation} (h : Shape t inv) : inv.name ≠ [] := by
  cases h with
  | bare hne _ => exact hne
  | call hne _ _ => exact hne

theorem Shape.name_no_paren {t : Text} {inv : Invocation} (h : Shape t inv) :
    openParen ∉ inv.name := by
  cases h with
  | bare _ hp => exact hp
  | call _ hp _ => exact hp

theorem Shape.head {t : Text} {inv : Invocation} (h : Shape t inv) : inv.name.head? = t.head? := by
  cases h with
  | bare _ _ => rfl
  | call hne _ _ =>
    obtain ⟨c, r, rfl⟩ := List.exists_cons_of_ne_nil hne
    rfl

theorem Shape.name_subset {t : Text} {inv : Invocation} (h : Shape t inv) : inv.name ⊆ t := by
  cases h with
  | bare _ _ => exact List.Subset.refl _
  | call _ _ _ => exact List.subset_append_left _ _

theorem parse?_subset {t : Text} {inv : Invocation} (h : parse? t = some inv) : inv.name ⊆ t := by
  have hshape : Shape (strip t) inv := split?_eq_some_iff.mp h
  exact fun _ hc => strip_subset t (hshape.name_subset hc)

end Callboard.Invocation
