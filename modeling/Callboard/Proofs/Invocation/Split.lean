import Callboard.Dispatch.Entry
import Callboard.Proofs.Invocation.Shape
import Callboard.Proofs.Literal.Grammar

/-!
# Every target is split in one way

Whether a target is an invocation shows from the text without the blanks around it: there
must be something in front of the first parenthesis, and if there is one, the last code point
has to close it and no newline may be behind it. The invocation is cut at that parenthesis.
Nothing of the text is lost, and it can be cut in no other way.
-/

set_option autoImplicit false

namespace Callboard.Invocation

open Text Literal

def text (inv : Invocation) : Text :=
  match inv.arguments with
  | none => inv.name
  | some inside => inv.name ++ [openParen] ++ inside ++ [closeParen]

def suffix (t : Text) : Text := t.dropWhile (fun c => c != openParen)

def Formed (t : Text) : Prop :=
  t ≠ [] ∧ t.head? ≠ some openParen ∧
    (openParen ∉ t ∨ t.getLast? = some closeParen ∧ newline ∉ suffix t)

def parts (t : Text) : Invocation :=
  ⟨t.takeWhile (fun c => c != openParen),
    if openParen ∈ t then some (suffix t).tail.dropLast else none⟩

section
variable {name : Text} (hp : openParen ∉ name)
include hp

theorem span_name (r : Text) :
    (name ++ openParen :: r).takeWhile (fun c => c != openParen) = name ∧
      suffix (name ++ openParen :: r) = openParen :: r := by
  apply span_of_all
  · rw [List.all_eq_true]
    intro c hc
    have hne : c ≠ openParen := fun heq => hp (heq ▸ hc)
    simpa using hne
  · intro c hc
    obtain rfl := Option.some.inj hc
    rfl

theorem parts_bare : parts name = ⟨name, none⟩ := by
  have hname : name.takeWhile (fun c => c != openParen) = name := upTo_of_not_mem hp
  rw [parts, if_neg hp, hname]

theorem parts_call (r : Text) : parts (name ++ openParen :: r) = ⟨name, some r.dropLast⟩ := by
  have hmem : openParen ∈ name ++ openParen :: r := by simp
  rw [parts, if_pos hmem, (span_name hp r).1, (span_name hp r).2, List.tail_cons]

theorem formed_bare (hne : name ≠ []) : Formed name := by
  refine ⟨hne, ?_, .inl hp⟩
  intro hhead
  exact hp (List.mem_of_mem_head? hhead)

theorem formed_call_iff (r : Text) : Formed (name ++ openParen :: r) ↔
    name ≠ [] ∧ ∃ inside, r = inside ++ [closeParen] ∧ newline ∉ inside := by
  have hmem : openParen ∈ name ++ openParen :: r := by simp
  have hsuffix := (span_name hp r).2
  have hend : ∀ (inside : Text) c,
      (name ++ openParen :: (inside ++ [c])).getLast? = some c := by
    intro inside c
    rw [← List.cons_append, ← List.append_assoc, List.getLast?_concat]
  constructor
  · rintro ⟨-, hhead, hnone | ⟨hlast, hnew⟩⟩
    · exact absurd hmem hnone
    rw [hsuffix] at hnew
    refine ⟨?_, ?_⟩
    · rintro rfl
      exact hhead rfl
    · rcases List.eq_nil_or_concat r with rfl | ⟨inside, c, rfl⟩
      · rw [List.getLast?_concat] at hlast
        cases hlast
      · rw [List.concat_eq_append, hend] at hlast
        obtain rfl := Option.some.inj hlast
        exact ⟨inside, List.concat_eq_append, fun h => hnew (by simp [h])⟩
  · rintro ⟨hne, inside, rfl, hnew⟩
    obtain ⟨c, r, rfl⟩ := List.exists_cons_of_ne_nil hne
    have hc : c ≠ openParen := fun heq => hp (heq ▸ List.mem_cons_self)
    refine ⟨by simp, by simpa using hc, .inr ⟨hend inside closeParen, ?_⟩⟩
    rw [hsuffix]
    intro hmem
    rcases List.mem_cons.mp hmem with heq | hmem
    · exact absurd heq (by decide)
    rcases List.mem_append.mp hmem with hmem | hmem
    · exact hnew hmem
    · exact absurd (List.mem_singleton.mp hmem) (by decide)

end

theorem shape_iff {t : Text} {inv : Invocation} : Shape t inv ↔ Formed t ∧ inv = parts t := by
  constructor
  · intro h
    cases h with
    | bare hne hp => exact ⟨formed_bare hp hne, (parts_bare hp).symm⟩
    | call hne hp hn =>
      refine ⟨(formed_call_iff hp _).mpr ⟨hne, _, rfl, hn⟩, ?_⟩
      rw [parts_call hp, List.dropLast_concat]
  · rintro ⟨hformed, rfl⟩
    rcases cut_at openParen t with hp | ⟨name, r, hp, rfl⟩
    · rw [parts_bare hp]
      exact .bare hformed.1 hp
    · obtain ⟨hne, inside, rfl, hn⟩ := (formed_call_iff hp r).mp hformed
      rw [parts_call hp, List.dropLast_concat]
      exact .call hne hp hn

theorem Shape.text {t : Text} {inv : Invocation} (h : Shape t inv) : inv.text = t := by
  cases h with
  | bare _ _ => rfl
  | call _ _ _ => simp [Invocation.text]

/-- The invocation is all of the target but for the blanks around it. No other invocation has
that text, and blanks around it can be added and removed. -/
structure Reads (target : Text) (inv : Invocation) : Prop where
  whole : inv.text = strip target
  unique : ∀ other, Shape (strip target) other → other = inv
  again : Dispatch.invocationOf inv.text = .ok inv
  blanks : ∀ {a t b : Text}, Blanks a → Blanks b → t = a ++ target ++ b ∨ target = a ++ t ++ b →
    Dispatch.invocationOf t = .ok inv

theorem invocationOf_iff_shape {target : Text} {inv : Invocation} :
    Dispatch.invocationOf target = .ok inv ↔ Shape (strip target) inv := by
  rw [Dispatch.invocationOf_eq_ok_iff, parse?, split?_eq_some_iff]

theorem Shape.reads {target : Text} {inv : Invocation} (h : Shape (strip target) inv) :
    Reads target inv := by
  constructor
  case whole => exact h.text
  case unique =>
    intro other hother
    rw [(shape_iff.mp h).2]
    exact (shape_iff.mp hother).2
  case again =>
    apply invocationOf_iff_shape.mpr
    rwa [h.text, strip_strip]
  case blanks =>
    intro a t b ha hb ht
    apply invocationOf_iff_shape.mpr
    rcases ht with rfl | rfl
    · rwa [strip_append_blanks ha hb]
    · rwa [strip_append_blanks ha hb] at h

/-- A target is read as its parts exactly if it is well-formed without the blanks around it.
If it is not, it is refused as it is. -/
theorem invocationOf_splits (target : Text) :
    (∀ inv, Dispatch.invocationOf target = .ok inv ↔
        Formed (strip target) ∧ inv = parts (strip target)) ∧
      (∀ p, Dispatch.invocationOf target = .error p ↔
        ¬ Formed (strip target) ∧ p = .invocationFormat target) ∧
      ∀ inv, Dispatch.invocationOf target = .ok inv → Reads target inv := by
  have hok : ∀ inv, Dispatch.invocationOf target = .ok inv ↔
      Formed (strip target) ∧ inv = parts (strip target) :=
    fun inv => invocationOf_iff_shape.trans shape_iff
  refine ⟨hok, fun p => ?_, fun inv h => (invocationOf_iff_shape.mp h).reads⟩
  have hnone : parse? target = none ↔ ¬ Formed (strip target) := by
    rw [Option.eq_none_iff_forall_ne_some]
    simp only [ne_eq, ← Dispatch.invocationOf_eq_ok_iff, hok, not_and]
    exact ⟨fun h hformed => h _ hformed rfl, fun h inv hformed => absurd hformed h⟩
  rw [Dispatch.invocationOf_eq_error_iff, hnone]
  rfl

/-- Parentheses may be part of the name, if they close, and of the arguments. -/
example : Dispatch.invocationOf (chars " f)(a)(b)\n") =
    .ok ⟨chars "f)", some (chars "a)(b")⟩ := by rfl

end Callboard.Invocation
